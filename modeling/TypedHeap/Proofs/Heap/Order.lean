import TypedHeap.Proofs.Heap.Questions
import TypedHeap.Proofs.Heap.Runs
import TypedHeap.Proofs.Types.Subtype

/-!
# Runs that keep a heap in order

A heap is in order if it is sound and no array is without a buffer but those that a caller is known to
have made so. In such a heap nothing fails because of what memory holds.

* `Error.Innocent`: errors that say nothing about damage.
* `Heap.InOrder`: a heap in order.
* `Behaves`: a run that leaves the heap in order, and fails with innocent errors only.
* `Heap.allocate_cases`: a new object, or an innocent failure that has made none.

There is one rule for each way of building an action, as there is for `Action.Meets` and `Action.Fails`.
-/

namespace TypedHeap

open TypedHeap.Action (Meets Fails runOn_bind_ok runOn_bind_error runOn_look runOn_tryCatch)
open Heap

/-! ## Innocent errors -/

/-- An error that does not tell of damage. No access goes beyond the last object, headers name types,
selectors name members, and arrays have their parts; an array may lack a buffer if it is one of `B`. -/
def Error.Innocent (B : Value → Prop) : Error → Prop
  | .indexOutOfRange kind _ _ => kind ≠ .heap
  | .invalidTag _ .notAnObject | .invalidTag _ .unregistered => True
  | .invalidTag addr .noBuffer => ∃ a, B a ∧ a.offset = addr
  | .invalidTag _ _ => False
  | _ => True

open Error (Innocent IsAboutTypes IsAboutLayouts IsAboutValue)

variable {α β : Type} {B : Value → Prop} {h h' : Heap} {v a : Value} {t : TypeRef} {S : Value → Nat → Prop}

theorem Error.IsAboutTypes.innocent {e : Error} (he : IsAboutTypes e) : Innocent B e := by
  cases e with
  | invalidTag addr fault => cases fault <;> first | exact False.elim he | trivial
  | indexOutOfRange kind i n => cases kind <;> first | exact False.elim he | exact nofun
  | _ => trivial

theorem Error.IsAboutLayouts.innocent {e : Error} (he : IsAboutLayouts e) : Innocent B e := by
  rcases he with he | rfl
  · exact he.innocent
  · trivial

theorem Error.IsAboutValue.innocent {e : Error} (he : IsAboutValue e) : Innocent B e := by
  cases e with
  | invalidTag addr fault => cases fault <;> first | exact False.elim he | trivial
  | indexOutOfRange => exact False.elim he
  | _ => trivial

/-! ## Heaps in order -/

namespace Heap

/-- A sound heap in which none but arrays of `B` lack a buffer. -/
structure InOrder (B : Value → Prop) (h : Heap) : Prop where
  sound : h.Sound
  types : h.types.BelowAbstract
  buffered : ∀ a, h.Unbuffered a → B a

theorem inOrder_fresh (config : HeapConfig) (barrier : Barrier) : InOrder B (fresh config barrier) where
  sound := sound_fresh config barrier
  types := TypeTable.belowAbstract_builtin
  buffered a ha := by
    obtain ⟨⟨elem, rank, t, d, r, ht, -⟩, -⟩ := ha
    obtain ⟨n, hn⟩ := live_of_typeOf ht
    cases hn

namespace InOrder

theorem mono {B' : Value → Prop} (ho : InOrder B h) (hB : ∀ a, B a → B' a) : InOrder B' h :=
  ⟨ho.sound, ho.types, fun a ha => hB a (ho.buffered a ha)⟩

/-- What was there is an array with a buffer still, so only what is new is of interest. -/
theorem trail (ho : InOrder B h) (trail : Trail S h h') (hnew : ∀ a, h'.Unbuffered a → ¬h.Live a → B a) :
    InOrder B h' where
  sound := Trail.sound trail ho.sound
  types := TypeTable.Path.belowAbstract (Trail.grows trail ho.sound).types ho.types
  buffered a ha := by
    by_cases hlive : h.Live a
    · refine ho.buffered a ⟨?_, fun f hf => ?_⟩
      · obtain ⟨elem, rank, ht⟩ := ha.1
        exact ⟨elem, rank, ho.sound.arrayType_of_live (Trail.keeps trail ho.sound).toExtends hlive ht⟩
      · obtain ⟨g, hg⟩ := Trail.isArray trail ho.sound hf
        exact ha.2 g hg
    · exact hnew a ha hlive

theorem path (ho : InOrder B h) (path : Path S h h') (hobjects : h'.objects = h.objects) : InOrder B h' := by
  refine ho.trail (Path.trail path) fun a ha hdead => absurd ?_ hdead
  obtain ⟨⟨elem, rank, t, d, r, ht, -⟩, -⟩ := ha
  exact (live_congr hobjects).1 (live_of_typeOf ht)

theorem marks (ho : InOrder B h) (hm : Marks S h h') : InOrder B h' := by
  refine ho.trail hm.trail fun a ha hdead => absurd ?_ hdead
  obtain ⟨⟨elem, rank, t, d, r, ht, -⟩, -⟩ := ha
  exact (live_congr hm.objects).1 (live_of_typeOf ht)

theorem learns (ho : InOrder B h) (hl : h.Learns h') : InOrder B h' := by
  refine ho.path (S := fun _ _ => False) (.learns hl) ?_
  obtain ⟨r, -, rfl⟩ := hl
  rfl

/-- A new object that is no array, or one of `B`. -/
theorem added {extra : Nat} (ho : InOrder B h) (path : Path S h h') (hv : NewObject h h' v t extra)
    (hB : (∃ elem rank, h'.ArrayType v elem rank) → B v) : InOrder B h' := by
  refine ho.trail (Path.trail path) fun a ha hdead => ?_
  obtain ⟨elem, rank, s, d, r, ht, hrest⟩ := ha.1
  obtain rfl := (hv.only a (live_of_typeOf ht)).resolve_left hdead
  exact hB ha.1

/-- Where a type with a layout is asked for, only objects of this very type may stand. -/
theorem eq_of_isa {x : Value} {s : TypeRef} {l : Layout} (ho : InOrder B h) (hx : h.typeOf x = .ok s)
    (hl : h.registry.layouts.find? t = some l) (hisa : h.types.isa s t = .ok true) : s = t := by
  obtain ⟨d, hd, hdesc⟩ := ho.sound.registry.layouts.describes hl
  obtain ⟨e, n, he, -, hshape⟩ := ho.sound.exists_shaped hx
  refine TypeTable.eq_of_isa ho.sound.registry.types ho.types hd ?_ he (fun hunion => ?_) hisa
  · constructor <;> intro hkind <;> rw [Layouts.Describes, hkind] at hdesc <;> exact hdesc
  · rw [Shaped, hunion] at hshape
    exact hshape

end InOrder

end Heap

/-! ## Runs -/

/-- A run that leaves the heap in order, and fails with innocent errors only. -/
structure Behaves (B : Value → Prop) (x : HeapM α) (h : Heap) : Prop where
  fails : Fails x h (Innocent B)
  order : InOrder B (x.runOn h).2

namespace Behaves

variable {x : HeapM α}

theorem of_runOn {r : Except Error α} (hrun : x.runOn h = (r, h')) (hr : Raises r (Innocent B))
    (ho : InOrder B h') : Behaves B x h :=
  ⟨.of_runOn hrun hr, by rw [hrun]; exact ho⟩

theorem pure {b : α} (ho : InOrder B h) : Behaves B (Pure.pure b) h := ⟨.pure, ho⟩

theorem throw {e : Error} (ho : InOrder B h) (he : Innocent B e) : Behaves B (throw e : HeapM α) h :=
  ⟨.throw he, ho⟩

theorem look {f : Heap → Except Error α} (ho : InOrder B h) (hf : Raises (f h) (Innocent B)) :
    Behaves B (Action.look f) h :=
  ⟨.look hf, ho⟩

/-- The second part starts with the answer and the heap that the first part gave. -/
theorem bind_ran {y : HeapM β} {f : β → HeapM α} (hy : Behaves B y h)
    (hf : ∀ b h', y.runOn h = (.ok b, h') → InOrder B h' → Behaves B (f b) h') : Behaves B (y >>= f) h := by
  have ho := hy.order
  rcases hrun : y.runOn h with ⟨e | b, h'⟩
  · rw [hrun] at ho
    exact of_runOn (runOn_bind_error hrun) (.error (hy.fails e (by rw [hrun]))) ho
  · rw [hrun] at ho
    obtain ⟨hfails, horder⟩ := hf b h' hrun ho
    exact ⟨Fails.of_runOn (runOn_bind_ok hrun) hfails, by rw [runOn_bind_ok hrun]; exact horder⟩

/-- The second part starts where a guarantee says that the first part stops. -/
theorem bind {R : Heap → Heap → Prop} {P : β → Heap → Prop} {y : HeapM β} {f : β → HeapM α}
    (hy : Behaves B y h) (hm : Meets R y h P)
    (hf : ∀ b h', R h h' → P b h' → InOrder B h' → Behaves B (f b) h') : Behaves B (y >>= f) h := by
  refine bind_ran hy fun b h' hrun => ?_
  have hkept := hm.kept
  have hanswer := hm.answer b
  rw [hrun] at hkept hanswer
  exact hf b h' hkept (hanswer rfl)

theorem look_bind {f : Heap → Except Error β} {g : β → HeapM α} (ho : InOrder B h)
    (hf : Raises (f h) (Innocent B)) (hg : ∀ b, f h = .ok b → Behaves B (g b) h) :
    Behaves B (Action.look f >>= g) h := by
  refine bind_ran (look ho hf) fun b h' hrun _ => ?_
  rw [runOn_look] at hrun
  obtain ⟨hb, rfl⟩ := Prod.mk.inj hrun
  exact hg b hb

theorem lift_bind {r : Except Error β} {g : β → HeapM α} (ho : InOrder B h) (hr : Raises r (Innocent B))
    (hg : ∀ b, r = .ok b → Behaves B (g b) h) : Behaves B ((liftM r : HeapM β) >>= g) h :=
  look_bind (f := fun _ => r) ho hr hg

theorem get_bind {g : Heap → HeapM α} (hg : Behaves B (g h) h) :
    Behaves B ((MonadState.get : HeapM Heap) >>= g) h :=
  ⟨.get_bind hg.fails, hg.order⟩

theorem pure_bind {b : β} {g : β → HeapM α} (hg : Behaves B (g b) h) :
    Behaves B ((Pure.pure b : HeapM β) >>= g) h :=
  ⟨.pure_bind hg.fails, hg.order⟩

theorem throw_bind {e : Error} {g : β → HeapM α} (ho : InOrder B h) (he : Innocent B e) :
    Behaves B ((MonadExcept.throw e : HeapM β) >>= g) h :=
  bind_ran (throw ho he) fun _ _ hrun => nomatch hrun

theorem guard {c : Prop} [Decidable c] {e : Error} {g : β → HeapM α} {y : HeapM α} (ho : InOrder B h)
    (he : Innocent B e) (hy : ¬c → Behaves B y h) : Behaves B (if c then MonadExcept.throw e >>= g else y) h := by
  split
  · exact throw_bind ho he
  · rename_i hc
    exact hy hc

theorem ite {c : Prop} [Decidable c] {y : HeapM α} (hx : c → Behaves B x h) (hy : ¬c → Behaves B y h) :
    Behaves B (if c then x else y) h := by
  split
  · rename_i hc
    exact hx hc
  · rename_i hc
    exact hy hc

theorem attempt (hx : Behaves B x h) : Behaves B x.attempt h := ⟨.attempt, hx.order⟩

/-- What follows a part that may fail gets to see an innocent error at most. -/
theorem attempt_bind {y : HeapM β} {f : Except Error β → HeapM α} (hy : Behaves B y h)
    (hf : ∀ r h', Raises r (Innocent B) → InOrder B h' → Behaves B (f r) h') :
    Behaves B (y.attempt >>= f) h := by
  refine bind_ran hy.attempt fun r h' hrun ho => hf r h' ?_ ho
  rw [Action.runOn_attempt] at hrun
  cases hrun
  exact hy.fails

theorem tryCatch {handler : Error → HeapM α} (hx : Behaves B x h)
    (hh : ∀ e h', Innocent B e → x.runOn h = (.error e, h') → InOrder B h' → Behaves B (handler e) h') :
    Behaves B (tryCatch x handler) h := by
  have ho := hx.order
  rcases hrun : x.runOn h with ⟨e | b, h'⟩
  · rw [hrun] at ho
    have hcatch : (MonadExcept.tryCatch x handler).runOn h = (handler e).runOn h' := by rw [runOn_tryCatch, hrun]
    obtain ⟨hfails, horder⟩ := hh e h' (hx.fails e (by rw [hrun])) hrun ho
    exact ⟨Fails.of_runOn hcatch hfails, by rw [hcatch]; exact horder⟩
  · rw [hrun] at ho
    exact of_runOn (by rw [runOn_tryCatch, hrun]) .ok ho

theorem recover {handle : Error → HeapM α} (hx : Behaves B x h)
    (hh : ∀ e h', Innocent B e → x.runOn h = (.error e, h') → InOrder B h' → Behaves B (handle e) h') :
    Behaves B (x.recover handle) h :=
  tryCatch hx fun e h' he hrun ho => ite (fun _ => throw ho he) fun _ => hh e h' he hrun ho

theorem mapM {f : β → HeapM α} {l : List β} (ho : InOrder B h)
    (hf : ∀ b ∈ l, ∀ h, InOrder B h → Behaves B (f b) h) : Behaves B (l.mapM f) h := by
  induction l generalizing h with
  | nil =>
    rw [List.mapM_nil]
    exact pure ho
  | cons b l ih =>
    rw [List.mapM_cons]
    refine bind_ran (hf b List.mem_cons_self h ho) fun _ h' _ ho' => ?_
    exact bind_ran (ih ho' fun c hc => hf c (List.mem_cons_of_mem _ hc)) fun _ _ _ => pure

theorem forM {f : β → HeapM PUnit} {l : List β} (ho : InOrder B h)
    (hf : ∀ b ∈ l, ∀ h, InOrder B h → Behaves B (f b) h) : Behaves B (l.forM f) h := by
  induction l generalizing h with
  | nil => exact pure ho
  | cons b l ih =>
    refine bind_ran (hf b List.mem_cons_self h ho) fun _ h' _ ho' => ?_
    exact ih ho' fun c hc => hf c (List.mem_cons_of_mem _ hc)

/-! ### From other guarantees -/

theorem of_learns {Q : α → Heap → Prop} (ho : InOrder B h) (hm : Meets Learns x h Q)
    (hf : Fails x h (Innocent B)) : Behaves B x h :=
  ⟨hf, ho.learns hm.kept⟩

/-- A question about types. -/
theorem of_types {Q : α → Heap → Prop} (ho : InOrder B h) (hm : Meets Learns x h Q)
    (hf : Fails x h IsAboutLayouts) : Behaves B x h :=
  of_learns ho hm (hf.mono fun _ he => he.innocent)

/-- Work on objects that are there. -/
theorem of_step {b : α} (ho : InOrder B h) (hrun : x.runOn h = (.ok b, h')) (step : Step S h h')
    (hobjects : h'.objects = h.objects) : Behaves B x h :=
  of_runOn hrun .ok (ho.path (.step step) hobjects)

end Behaves

namespace Heap

variable {off n k : Nat} {bs : List UInt8}

/-! ## Types -/

theorem layout_behaves (ho : InOrder B h) (t : TypeRef) : Behaves B (layout t) h :=
  .of_types ho (layout_meets t) (Fails.focus (Registry.layout_fails t))

theorem sizeOf_behaves (ho : InOrder B h) (t : TypeRef) : Behaves B (sizeOf t) h :=
  .of_types ho (sizeOf_meets t) (Fails.focus (Registry.sizeOf_fails t))

theorem isInline_behaves (ho : InOrder B h) (t : TypeRef) : Behaves B (isInline t) h :=
  .of_types ho (isInline_meets t) (Fails.focus (Registry.isInline_fails t))

theorem onTypes_behaves {x : Action TypeTable α} {Q : α → TypeTable → Prop} (ho : InOrder B h)
    (hm : Meets TypeTable.Path x h.types Q) (hf : Fails x h.types IsAboutTypes) : Behaves B (onTypes x) h :=
  .of_types ho (onTypes_meets hm) (Fails.focus (Fails.focus (hf.mono fun _ => .inl)))

theorem descriptor_innocent (tt : TypeTable) (t : TypeRef) : Raises (tt.descriptor t) (Innocent B) :=
  (tt.descriptor_fails t).mono fun _ he => he.innocent

theorem render_innocent (tt : TypeTable) (t : TypeRef) : Raises (tt.render t) (Innocent B) :=
  (tt.render_fails t).mono fun _ he => he.innocent

/-! ## Questions -/

theorem decode_innocent (symbols : SymbolTable) (k : ScalarKind) (bs : List UInt8) :
    Raises (k.decode symbols bs) (Innocent B) :=
  (decode_raises symbols k bs).mono fun _ he => he.innocent

theorem objectSize_innocent (h : Heap) (v : Value) : Raises (h.objectSize v) (Innocent B) := by
  unfold objectSize
  split
  · exact .ok
  · exact .error trivial

theorem Arena.header_innocent (ha : h.Arena) (v : Value) : Raises (h.header v) (Innocent B) := by
  by_cases hv : h.Live v
  · exact .of_eq_ok (header_eq_ok.2 ⟨hv, ha.header_end_le hv, rfl⟩)
  · unfold header
    exact Raises.bind (objectSize_innocent h v) fun n hn => absurd ⟨n, objectSize_eq_ok.1 hn⟩ hv

theorem Arena.gcBits_innocent (ha : h.Arena) (v : Value) : Raises (h.gcBits v) (Innocent B) :=
  Raises.bind (ha.header_innocent v) fun _ _ => .pure

namespace Sound

theorem typeOf_innocent (hs : h.Sound) (v : Value) : Raises (h.typeOf v) (Innocent B) := by
  refine (hs.typeOf_raises v).mono fun e he => ?_
  rw [he]
  trivial

theorem expectType_innocent (hs : h.Sound) (v : Value) (t : TypeRef) :
    Raises (h.expectType v t) (Innocent B) :=
  (hs.expectType_raises v t).mono fun _ he => he.innocent

theorem descriptor_innocent (hs : h.Sound) (v : Value) : Raises (h.descriptor v) (Innocent B) := by
  refine (hs.descriptor_raises v).mono fun e he => ?_
  rw [he]
  trivial

theorem isa_innocent (hs : h.Sound) (v : Value) (t : TypeRef) : Raises (h.isa v t) (Innocent B) :=
  Raises.bind (hs.typeOf_innocent v) fun s _ => (h.types.isa_fails s t).mono fun _ he => he.innocent

theorem start_innocent (hs : h.Sound) (v : Value) : Raises (Buffer.start h v) (Innocent B) :=
  Raises.bind (hs.expectType_innocent v _) fun _ _ => .pure

theorem payload_innocent (hs : h.Sound) (v : Value) : Raises (h.payload v) (Innocent B) := by
  unfold payload
  refine Raises.bind (objectSize_innocent h v) fun n hn => ?_
  exact .of_eq_ok (bytes_eq (hs.end_le_top (objectSize_eq_ok.1 hn)))

end Sound

/-- An array that is not one of `B` tells about itself. -/
theorem InOrder.info_innocent (ho : InOrder B h) (a : Value) : Raises (ArrayObject.info h a) (Innocent B) := by
  refine (ho.sound.info_raises a).mono fun e he => ?_
  obtain rfl | ⟨_, rfl⟩ | ⟨_, _, rfl⟩ | ⟨rfl, ha⟩ := he
  · trivial
  · trivial
  · trivial
  · exact ⟨a, ho.buffered a ha, rfl⟩

/-! ## The barrier -/

theorem setGcBits_fails (ha : h.Arena) (v : Value) (g : GcBits) : Fails (setGcBits v g) h (Innocent B) := by
  refine Fails.look_bind (ha.header_innocent v) fun w hw => ?_
  have hend : v.offset - 8 + 8 ≤ h.top := (header_eq_ok.1 hw).2.1
  have hrange : h.checkRange (v.offset - 8) (LittleEndian.toBytes 8 (w.withGc g).word).length = .ok () :=
    checkRange_eq (by rw [LittleEndian.length_toBytes]; exact hend)
  exact Fails.look_bind (.of_eq_ok hrange) fun _ _ => .change

theorem writeBarrier_fails (ha : h.Arena) (parent child : Value) :
    Fails (writeBarrier parent child) h (Innocent B) := by
  unfold writeBarrier
  refine Fails.look_bind (ha.gcBits_innocent parent) fun bits _ => Fails.ite (fun _ => ?_) fun _ => .pure
  refine Fails.look_bind (ha.gcBits_innocent child) fun childBits _ => Fails.ite (fun _ => ?_) fun _ => .pure
  exact Fails.bind_ran (setGcBits_fails ha parent _) fun _ _ _ => .change

theorem setGcBits_behaves (ho : InOrder B h) (v : Value) (g : GcBits) : Behaves B (setGcBits v g) h where
  fails := setGcBits_fails ho.sound.arena v g
  order := ho.marks (S := fun _ _ => True) (setGcBits_meets ho.sound v g).kept

theorem writeBarrier_behaves (ho : InOrder B h) (parent child : Value) :
    Behaves B (writeBarrier parent child) h where
  fails := writeBarrier_fails ho.sound.arena parent child
  order := ho.marks (S := fun _ _ => True) (writeBarrier_meets ho.sound parent child).kept

theorem drainRoots_behaves (ho : InOrder B h) : Behaves B drainRoots h where
  fails := .of_runOn rfl .ok
  order := ho.marks (S := fun _ _ => True) drainRoots_meets.kept

theorem takeRemembered_behaves (ho : InOrder B h) : Behaves B takeRemembered h := by
  unfold takeRemembered
  refine Behaves.bind_ran (drainRoots_behaves ho) fun roots h₁ _ ho₁ => ?_
  refine Behaves.bind_ran (Behaves.forM ho₁ fun v _ h₂ ho₂ => ?_) fun _ _ _ ho => .pure ho
  exact Behaves.look_bind ho₂ (ho₂.sound.arena.gcBits_innocent v) fun bits _ => setGcBits_behaves ho₂ v _

/-! ## Writing -/

theorem writeBytes_behaves (ho : InOrder B h) (hend : v.offset + k + bs.length ≤ h.top)
    (step : Step S h (h.put v k bs)) : Behaves B (writeBytes (v.offset + k) bs) h :=
  .of_step ho (runOn_writeBytes hend) step put_objects

theorem copyBytes_behaves {src : Nat} (ho : InOrder B h) (hsrc : src + n ≤ h.top)
    (hend : v.offset + k + n ≤ h.top) (step : Step S h (h.put v k (h.memory.window src n))) :
    Behaves B (copyBytes src n (v.offset + k)) h :=
  .of_step ho (runOn_copyBytes hsrc hend) step put_objects

/-- The barrier may say that what was stored is no object. -/
theorem storeRef_behaves (ho : InOrder B h) (hn : h.size? v = some n) (hk : k + 8 ≤ n)
    (step : Step S h ((h.putWord v k a.offset).guarded v a)) : Behaves B (storeRef v (v.offset + k) a) h := by
  have hend : v.offset + k + 8 ≤ h.top := by
    have := ho.sound.end_le_top hn
    omega
  have hput : Rewrites (fun _ _ => True) h (h.putWord v k a.offset) :=
    .putWord ho.sound.arena hn hk fun _ _ _ => trivial
  have harena := hput.arena ho.sound.arena
  have hguarded : Rewrites (fun _ _ => True) _ _ := .guarded harena v a
  have hwrite : (writeRef (v.offset + k) (some a)).runOn h = (.ok ⟨⟩, h.putWord v k a.offset) :=
    runOn_writeRef hend
  refine ⟨?_, ho.path (storeRef_meets hend step).kept ?_⟩
  · refine Fails.bind_ran (.of_runOn hwrite .ok) fun _ h' hrun => ?_
    cases hwrite.symm.trans hrun
    exact writeBarrier_fails harena v a
  · rw [runOn_storeRef hend]
    exact hguarded.objects.trans hput.objects

/-! ## Allocation -/

theorem checkedSize_fails (n : Nat) : Fails (checkedSize n) h (Innocent B) := by
  unfold checkedSize
  exact Fails.ite (fun _ => .pure) fun _ => Fails.get_bind (.throw trivial)

theorem payloadSize_fails (d : Descriptor) (extra : Nat) : Fails (payloadSize d extra) h (Innocent B) := by
  have hsize : Fails (sizeOf d.ref) h (Innocent B) :=
    (Fails.focus (Registry.sizeOf_fails d.ref)).mono fun _ he => he.innocent
  unfold payloadSize
  cases d.kind
  case string => exact checkedSize_fails _
  case buffer => exact checkedSize_fails _
  case simpleVector => exact checkedSize_fails _
  case array =>
    refine Fails.lift_bind ((d.params.get_raises 1).mono fun _ he => he.innocent) fun p _ => ?_
    exact Fails.guard (fun _ => trivial) fun _ => hsize
  case abstract => exact Fails.get_bind (Fails.lift_bind (render_innocent _ _) fun _ _ => .throw trivial)
  case union => exact Fails.get_bind (Fails.lift_bind (render_innocent _ _) fun _ _ => .throw trivial)
  all_goals exact Fails.guard (fun _ => trivial) fun _ => hsize

/-- An allocation makes the object and nothing else, or it makes none. -/
theorem allocate_cases (hs : h.Sound) (t : TypeRef) (extra : Nat) :
    (∃ v h', (allocate t extra).runOn h = (.ok v, h') ∧ NewObject h h' v t extra) ∨
      ∃ e h', (allocate t extra).runOn h = (.error e, h') ∧ h.Learns h' ∧ Innocent B e := by
  have hr : Ready (fun _ _ => True) h := ⟨hs, fun _ _ => trivial⟩
  rcases hrun : (allocate t extra).runOn h with ⟨e | v, h'⟩
  swap
  · have hnew := (allocate_meets hr t extra).answer v
    rw [hrun] at hnew
    exact .inl ⟨v, h', rfl, hnew rfl⟩
  refine .inr ⟨e, h', rfl, ?_⟩
  rw [allocate_eq, runOn_bind_ok (Action.runOn_get h)] at hrun
  cases hd : h.types.descriptor t with
  | error e' =>
    rw [runOn_bind_error (by rw [Action.runOn_lift, hd])] at hrun
    cases hrun
    exact ⟨.refl h, descriptor_innocent h.types t e hd⟩
  | ok d =>
    rw [runOn_bind_ok (by rw [Action.runOn_lift, hd])] at hrun
    have hsize := payloadSize_meets (h := h) d extra
    have hfails := payloadSize_fails (h := h) (B := B) d extra
    rcases hpayload : (payloadSize d extra).runOn h with ⟨e' | n, h₁⟩
    · have hkept := hsize.kept
      rw [hpayload] at hkept
      rw [runOn_bind_error hpayload] at hrun
      cases hrun
      exact ⟨hkept, hfails e (by rw [hpayload])⟩
    · have hkept := hsize.kept
      have hn := hsize.answer n
      rw [hpayload] at hkept hn
      rw [runOn_bind_ok hpayload] at hrun
      have hn := hn rfl
      by_cases hroom : h₁.nextStart + n ≤ h₁.limit
      · obtain ⟨v, -, hplace⟩ := runOn_place (hs.registry.types.ref_eq hd) (fun hlength => (hn.word_lt hlength).2) hroom
        cases hrun.symm.trans hplace
      · cases hrun.symm.trans (runOn_place_error (Nat.not_le.1 hroom))
        exact ⟨hkept, trivial⟩

/-- A new object that is no array. -/
theorem allocate_behaves {d : Descriptor} (ho : InOrder B h) (hd : h.types.descriptor t = .ok d)
    (hkind : d.kind ≠ .array) (extra : Nat) : Behaves B (allocate t extra) h := by
  have hr : Ready (fun _ _ => True) h := ⟨ho.sound, fun _ _ => trivial⟩
  obtain ⟨v, h', hrun, hv⟩ | ⟨e, h', hrun, hl, he⟩ := allocate_cases (B := B) ho.sound t extra
  · have hpath := (allocate_meets hr t extra).kept
    rw [hrun] at hpath
    refine .of_runOn hrun .ok (ho.added hpath hv ?_)
    rintro ⟨elem, rank, s, d', r, hts, hd', harray, -⟩
    obtain rfl := Except.ok.inj (hv.type.symm.trans hts)
    cases (hv.kept.descriptor hd).symm.trans hd'
    exact absurd harray hkind
  · exact .of_runOn hrun (.error he) (ho.learns hl)

end Heap

end TypedHeap
