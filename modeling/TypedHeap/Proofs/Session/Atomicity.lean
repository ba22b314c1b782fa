import TypedHeap.Proofs.Array.Vector
import TypedHeap.Proofs.Heap.Unharmed
import TypedHeap.Proofs.Session.Isolation
import TypedHeap.Proofs.Session.Remembering

/-!
# Operations that fail do no harm

Many operations check, allocate and write in turns. When one of them fails, what it has written so far lies in
objects that it made itself: every object that was there is what it was, and nothing is queued. Appending to
an array takes back what it did, and a vector under construction is filled item by item; these are left out. Roots
are handed over only if all of them are objects, and are lost otherwise.

* `Record.write_ends`, `ArrayObject.set_fails`, `setScalar_fails`, `reshape_fails`: how changes of objects fail.
* `Operation.isPiecemeal`: the operations that are left out.
* `Session.Unaided`: sessions in which nobody but the barrier queued anything.

Main result: `Session.Reachable.failures_unharmed`.
-/

namespace TypedHeap

open TypedHeap.Action (Meets Ends)
open Heap

variable {α β : Type} {h : Heap} {a v x : Value} {f : FieldLayout}

/-! ## Writes that fail -/

namespace Heap

/-- A question in front of an action, which may fail as well. -/
theorem learns_ends {y : HeapM β} {g : β → HeapM α} {P : β → Heap → Prop} {Q : α → Heap → Prop} {E : Heap → Prop}
    (hy : Meets Learns y h P) (hE : ∀ h', h.Learns h' → E h')
    (hg : ∀ b h', h.Learns h' → P b h' → Ends (g b) h' Q E) : Ends (y >>= g) h Q E :=
  Ends.bind ((Ends.of_meets hy).mono (fun _ _ => id) hE) fun b h' hb => hg b h' hb.1 hb.2

theorem writeBytes_ends (off : Nat) (bs : List UInt8) :
    Ends (writeBytes off bs) h (fun _ _ => True) (· = h) := by
  unfold writeBytes
  exact Ends.look_bind rfl fun _ _ => .of_ok (Action.runOn_modify _ _) trivial

theorem copyBytes_ends (src len dst : Nat) : Ends (copyBytes src len dst) h (fun _ _ => True) (· = h) := by
  unfold copyBytes
  exact Ends.look_bind rfl fun bs _ => writeBytes_ends dst bs

/-- A symbol may get a key although the bytes are not written. -/
theorem storeScalar_ends {S : Value → Nat → Prop} (off : Nat) (k : ScalarKind) (c : k.Carrier) :
    Ends (storeScalar off k c) h (fun _ _ => True) (Path S h) := by
  unfold storeScalar
  refine Ends.bind ((Ends.of_meets (encode_meets k c)).mono (fun _ _ => id) fun _ => id) fun bs h₁ hbs => ?_
  exact (writeBytes_ends off bs).mono (fun _ _ => id) fun _ heq => heq ▸ hbs.1

theorem setGcBits_ends (v : Value) (g : GcBits) : Ends (setGcBits v g) h (fun _ _ => True) (· = h) := by
  unfold setGcBits
  exact Ends.look_bind rfl fun _ _ => writeBytes_ends _ _

theorem writeBarrier_ends (parent child : Value) :
    Ends (writeBarrier parent child) h (fun _ _ => True) (· = h) := by
  unfold writeBarrier
  refine Ends.look_bind rfl fun bits _ => Ends.ite (fun _ => ?_) fun _ => .of_ok (Action.runOn_pure _ _) trivial
  refine Ends.look_bind rfl fun child _ => Ends.ite (fun _ => ?_) fun _ => .of_ok (Action.runOn_pure _ _) trivial
  exact Ends.bind (setGcBits_ends parent _) fun _ _ _ => .of_ok (Action.runOn_modify _ _) trivial

end Heap

/-! ## Fields -/

namespace Record

theorem store_ends (hs : h.Sound) (hf : IsField h v f) (x : Value) :
    Ends (store v f x) h (fun _ _ => True) (· = h) := by
  have hend := hf.end_le hs
  have hplace := hf.place_eq hs
  obtain ⟨t, l, ht, hl, hmem⟩ := hf
  have hin_end := hs.registry.layouts.end_le hl hmem
  unfold store
  refine Ends.look_bind rfl fun s hx => Ends.look_bind rfl fun _ _ => ?_
  refine Ends.ite (fun _ => Ends.bind_ok (Action.runOn_get h) ?_) fun _ => ?_
  · exact .of_error (Action.runOn_bind_error (Action.runOn_throw _ _)) rfl
  refine Ends.lift_bind rfl fun start hstart => ?_
  cases hplace.symm.trans hstart
  refine Ends.ite (fun _ => copyBytes_ends _ _ _) fun hout => ?_
  have hsize := hs.registry.layouts.size_reference hl hmem (by simpa using hout)
  rw [hsize, refSize] at hend hin_end
  have hput : Rewrites (fun w _ => w = v) h (h.putWord v f.offset x.offset) :=
    .putWord hs.arena (hs.size_record ht hl hmem) hin_end fun _ _ _ => rfl
  have hrun := runOn_storeRef_live (hput.arena hs.arena) (hput.live_iff.2 (live_of_typeOf ht))
    (hput.live_iff.2 (live_of_typeOf hx)) hend
  exact .of_ok hrun trivial

/-- All checks are made before a field changes. -/
theorem write_ends (hs : h.Sound) (v : Value) (i : Nat) (x : Value) :
    Ends (write v i x) h (fun _ _ => True) h.Learns := by
  unfold write
  refine Ends.look_bind (.refl h) fun t _ => ?_
  refine learns_ends (fieldLayout_meets v i) (fun _ => id) fun f h₁ hl hf => ?_
  refine Ends.look_bind hl fun _ _ => Ends.ite (fun _ => ?_) fun _ => ?_
  · refine learns_ends (ModuleObject.checkParent_meets v i x) (fun _ => hl.trans) fun _ h₂ hl₂ _ => ?_
    exact (store_ends (hs.learns (hl.trans hl₂)) (hf.extends hl₂.extends) x).mono (fun _ _ => id)
      fun _ heq => heq ▸ hl.trans hl₂
  · exact (store_ends (hs.learns hl) hf x).mono (fun _ _ => id) fun _ heq => heq ▸ hl

theorem writeScalar_ends {S : Value → Nat → Prop} (v : Value) (i : Nat) (k : ScalarKind) (c : k.Carrier) :
    Ends (writeScalar v i k c) h (fun _ _ => True) (Path S h) := by
  unfold writeScalar
  refine Ends.look_bind .refl fun t _ => ?_
  refine learns_ends (fieldLayout_meets v i) (fun _ => .learns) fun f h₁ hl _ => ?_
  refine Ends.look_bind (.learns hl) fun _ _ => ?_
  refine Ends.ite (fun _ => Ends.bind_ok (Action.runOn_get h₁) ?_) fun _ => ?_
  · exact .of_error (Action.runOn_bind_error (Action.runOn_throw _ _)) (.learns hl)
  · refine Ends.lift_bind (.learns hl) fun start _ => ?_
    exact (storeScalar_ends start k c).mono (fun _ _ => id) fun _ path => (Path.learns hl).trans path

end Record

/-! ## Elements -/

namespace ArrayObject

/-- Whatever an element is set to, the array is left alone if that fails. -/
theorem set_fails (hs : h.Sound) (a : Value) (i : Nat) (x : Value) :
    Ends (set a i x) h (fun _ _ => True) h.Learns := by
  have hl := Learns.refl h
  unfold set
  refine Ends.look_bind hl fun f hf => Ends.lift_bind hl fun _ hi => Ends.look_bind hl fun t ht => ?_
  refine Ends.look_bind hl fun start hstart => ?_
  have ha := isArray_of_info hs.registry hf
  have hi := ArrayInfo.checkIndex_eq_ok.1 hi
  obtain ⟨xs, hxs⟩ := exists_holds (hs.arrays ha).body
  obtain ⟨-, rfl⟩ := Buffer.start_eq_ok.1 hstart
  simp only [Nat.add_assoc]
  cases hstorage : f.flags.storage with
  | references =>
    refine Ends.look_bind hl fun fits _ => Ends.ite (fun _ => Ends.look_bind hl fun _ => nofun) fun _ => ?_
    exact (setReference_ends hs ha hxs hi hstorage (live_of_typeOf ht) (E := h.Learns)).mono
      (fun _ _ _ => trivial) fun _ => id
  | flat =>
    refine Ends.ite (fun _ => Ends.look_bind hl fun _ => nofun) fun hsame => ?_
    exact (copyBytes_ends _ _ _).mono (fun _ _ => id) fun _ heq => heq ▸ hl
  | selected =>
    refine Ends.look_bind hl fun selector hselector => ?_
    refine learns_ends (sizeOf_meets t) (fun _ => id) fun n h₁ hl₁ hn => ?_
    obtain ⟨d, m, hd, hm, rfl⟩ := selectorOf_eq_ok hselector
    have hk := hl₁.keeps fun _ _ => False
    have hs₁ := hs.learns hl₁
    have ha₁ := hs.isArray_kept ha hk fun _ => id
    obtain ⟨ys, hys⟩ := exists_holds (hs₁.arrays ha₁).body
    rw [← Nat.add_assoc refSize]
    exact (setMember_ends hs₁ ha₁ hys hi hstorage (hk.descriptor hd) hm hn (hk.typeOf ht) (E := h.Learns)).mono
      (fun _ _ _ => trivial) fun _ => id

theorem setScalar_fails (hs : h.Sound) (a : Value) (i : Nat) (k : ScalarKind) (c : k.Carrier) :
    Ends (setScalar a i k c) h (fun _ _ => True) (Path (fun w _ => ¬h.Live w) h) := by
  have hnew : Ready (fun w _ => ¬h.Live w) h := ⟨hs, fun hv _ => hv⟩
  have hstart : Path (fun w _ => ¬h.Live w) h h := .refl
  unfold setScalar
  refine Ends.look_bind hstart fun f hf => Ends.lift_bind hstart fun _ hi => Ends.look_bind hstart fun start hs' => ?_
  have ha := isArray_of_info hs.registry hf
  have hi := ArrayInfo.checkIndex_eq_ok.1 hi
  obtain ⟨-, rfl⟩ := Buffer.start_eq_ok.1 hs'
  simp only [Nat.add_assoc]
  cases hstorage : f.flags.storage with
  | references =>
    have hbox := Ends.of_meets (Box.new_meets hnew k c)
    refine Ends.bind (hbox.mono (fun _ _ => id) fun _ => id) fun box h₁ hbox => ?_
    exact (set_fails (hbox.1.sound hs) a i box).mono (fun _ _ => id) fun _ hl => hbox.1.trans (Path.learns hl)
  | flat =>
    exact Ends.ite (fun _ => Ends.look_bind hstart fun _ => nofun) fun _ => storeScalar_ends _ k c
  | selected =>
    refine Ends.look_bind hstart fun selector hselector => ?_
    obtain ⟨d, m, hd, hm, rfl⟩ := selectorOf_eq_ok hselector
    refine Ends.bind ((Ends.of_meets (encode_meets k c)).mono (fun _ _ => id) fun _ => id) fun bs h₁ hbs => ?_
    obtain ⟨-, -, hlen, heq⟩ := hbs
    rw [heq]
    obtain ⟨l, hl, -, hle⟩ := (hs.arrays ha).body.member_bits hstorage hd (List.mem_of_getElem? hm)
    rw [(hs.scalar_size hl).2, ← hlen] at hle
    exact .of_ok (runOn_setScalarMember (hs.of_symbols _) (hs.isArray_symbols ha _) hi hstorage hle) trivial

/-- An array that cannot be resized is left alone, whatever the reason. -/
theorem resize_fails_new {n : Nat} (hs : h.Sound) (a : Value) (hn : n < 0x10000000000000000) :
    Ends (resize a n) h (fun _ _ => True) (Path (fun w _ => ¬h.Live w) h) := by
  rcases hinfo : info h a with e | f
  · have hrun : (resize a n).runOn h = (.error e, h) := Action.runOn_bind_error (by rw [Action.runOn_look, hinfo])
    exact .of_error hrun .refl
  · exact (resize_ends hs (isArray_of_info hs.registry hinfo) hn).mono (fun _ _ _ => trivial) fun _ => And.left

/-- Once there is a view it is written and the array is marked, and neither fails. -/
theorem reshape_fails (hs : h.Sound) (a : Value) (dims : List Nat) :
    Ends (reshape a dims) h (fun _ _ => True) (Path (fun w _ => ¬h.Live w) h) := by
  have hstart : Path (fun w _ => ¬h.Live w) h h := .refl
  have hnew : Ready (fun w _ => ¬h.Live w) h := ⟨hs, fun hv _ => hv⟩
  unfold reshape
  refine Ends.look_bind hstart fun f hf => Ends.guard (fun _ => hstart) fun _ => ?_
  refine Ends.look_bind hstart fun keeper hkeeper => ?_
  have ha := isArray_of_info hs.registry hf
  obtain rfl := eq_buffer_of_owner hs ha hkeeper
  have hfamily := onTypes_meets (h := h) (TypeTable.arrayType_meets hs.registry.types f.elem dims.length)
  refine learns_ends hfamily (fun _ hl => Path.learns hl) fun t h₁ hl ht => ?_
  have hr₁ := hnew.learns hl
  have hallocate := Ends.of_meets (allocate_meets hr₁ t dims.length)
  refine Ends.bind (hallocate.mono (fun _ _ => id) fun _ path => (Path.learns hl).trans path) fun view h₂ hview => ?_
  obtain ⟨path, hview⟩ := hview
  have ha₁ := hs.isArray_learns ha hl
  have ha₂ := hr₁.sound.isArray_kept ha₁ hview.kept fun _ => id
  have htype := arrayType_of_new hview (ht.stands.extends hview.kept.registry.types)
  exact .of_ok (runOn_buildView (path.sound hr₁.sound) ha₂ htype) trivial

end ArrayObject

/-! ## Operations -/

namespace Operation

/-- Operations that undo what they did when they fail, or that a caller repeats until all is done. -/
def isPiecemeal : Operation α → Bool
  | push _ _ | pushArgument _ _ _ | builderSet _ _ _ => true
  | _ => false

/-- An operation that fails has touched nothing but what it made. -/
theorem fails_new (hs : h.Sound) (o : Operation α) (hb : ∀ b, o.builder? = some b → b.Holds h)
    (ho : o.isPiecemeal = false) (hroots : o.takesRoots = false) :
    Ends o.perform h (fun _ _ => True) (Path (fun w _ => ¬h.Live w) h) := by
  have hstart : Path (fun w _ => ¬h.Live w) h h := .refl
  have hstores (hcollector : o.isForCollector = false) (hnothing : ∀ v k, ¬o.Addresses h v k) :
      Ends o.perform h (fun _ _ => True) (Path (fun w _ => ¬h.Live w) h) := by
    have hsame : (fun w k => o.Addresses h w k ∨ ¬h.Live w) = fun w _ => ¬h.Live w :=
      funext₂ fun w k => propext (or_iff_right (hnothing w k))
    have hm := Ends.of_meets (o.stores_meets hs hb hcollector)
    rw [hsame] at hm
    exact hm.mono (fun _ _ _ => trivial) fun _ => id
  have hsame {x : HeapM α} (hx : Ends x h (fun _ _ => True) (· = h)) :
      Ends x h (fun _ _ => True) (Path (fun w _ => ¬h.Live w) h) :=
    hx.mono (fun _ _ => id) fun _ heq => heq ▸ hstart
  have hlearns {x : HeapM α} (hx : Ends x h (fun _ _ => True) h.Learns) :
      Ends x h (fun _ _ => True) (Path (fun w _ => ¬h.Live w) h) :=
    hx.mono (fun _ _ => id) fun _ hl => Path.learns hl
  cases o with
  | setGcBits v g => exact hsame (setGcBits_ends v g)
  | writeBarrier parent child => exact hsame (writeBarrier_ends parent child)
  | queueRoot v => exact .of_ok (Action.runOn_modify _ h) trivial
  | drainRoots => exact .of_ok rfl trivial
  | takeRemembered => cases hroots
  | builderSet b i x => cases ho
  | push a x => cases ho
  | pushArgument ts e x => cases ho
  | builderTruncate b length =>
    rcases Nat.lt_or_ge b.length length with hlt | hle
    · exact .of_error (SimpleVector.Builder.runOn_truncate_error hlt) hstart
    · obtain ⟨h', hrun, -⟩ := b.runOn_truncate (S := fun _ _ => True) hs (hb b rfl) (fun _ => trivial) hle
      exact .of_ok hrun trivial
  | elementWrite a i x => exact hlearns (ArrayObject.set_fails hs a i x)
  | elementWriteScalar a i k c => exact ArrayObject.setScalar_fails hs a i k c
  | resize a n => exact ArrayObject.resize_fails_new hs a n.toNat_lt
  | reshape a dims => exact ArrayObject.reshape_fails hs a _
  | fieldWrite v i x => exact hlearns (Record.write_ends hs v i x)
  | fieldWriteScalar v i k c => exact Record.writeScalar_ends v i k c
  | setHead ts e s => exact Ends.look_bind hstart fun _ _ => Record.writeScalar_ends e Nodes.headField .symbol s
  | setArgument ts e i x =>
    refine hlearns (learns_ends (Nodes.vectorWith_meets ts e i) (fun _ => id) fun args h₁ hl _ => ?_)
    exact (ArrayObject.set_fails (hs.learns hl) args i x).mono (fun _ _ => id) fun _ => hl.trans
  | _ => exact hstores rfl fun _ _ => id

end Operation

/-! ## Runs -/

namespace Session

variable {s : Session} {e : Error}

/-- Sessions in which nobody but the barrier queued anything. -/
inductive Unaided : Session → Prop
  | start (config : HeapConfig) {barrier : Barrier} (idle : barrier.roots = []) : Unaided (start config barrier)
  | next {α : Type} {s : Session} (before : Unaided s) (o : Operation α) (allowed : s.Allows o)
      (unaided : o.queuesByHand = false) : Unaided (s.next o)

theorem Unaided.reachable (hs : Unaided s) : Reachable s := by
  induction hs with
  | start config => exact reachable_start config _
  | next _ o allowed _ ih => exact ih.next o allowed

theorem rooted_next (hs : s.Sound) (o : Operation α) (allowed : s.Allows o) (ho : o.queuesByHand = false)
    (hr : s.heap.Rooted) : (s.next o).heap.Rooted := by
  have hempty {h : Heap} {b : Barrier} (hqueue : h.barrier = b.cleared) : h.Rooted := by
    intro v hv
    rw [hqueue] at hv
    cases b <;> cases hv
  rw [next_heap]
  cases hcollector : o.isForCollector with
  | false =>
    have hm := o.stores_meets hs.heap (fun b hb => hs.builders b (allowed b hb)) hcollector
    exact Path.rooted hm.kept hs.heap hr
  | true =>
    cases o with
    | setGcBits v g =>
      by_cases hv : s.heap.Live v
      · have hflags : Rewrites (fun _ _ => False) s.heap (s.heap.setFlags v g) := .setFlags hs.heap.arena hv g
        show ((setGcBits v g).runOn s.heap).2.Rooted
        rw [runOn_setFlags hs.heap.arena hv g]
        exact hr.of_queue putHeader_barrier fun _ => hflags.live_iff.2
      · have hdead : Ends (setGcBits v g) s.heap (fun _ => Rooted) Rooted :=
          Ends.look_bind hr fun _ hw => absurd (header_eq_ok.1 hw).1 hv
        exact hdead.state
    | writeBarrier parent child => exact hr.guarded hs.heap.arena parent child
    | drainRoots => exact hempty (h := (drainRoots.runOn s.heap).2) (b := s.heap.barrier) rfl
    | takeRemembered =>
      obtain ⟨h', hrun, -, hqueue⟩ := hr.runOn_takeRemembered hs.heap
      show (takeRemembered.runOn s.heap).2.Rooted
      rw [hrun]
      exact hempty hqueue
    | queueRoot v => cases ho
    | _ => cases hcollector

/-- By induction on the run: what waits for the collector are objects. -/
theorem Unaided.rooted (hs : Unaided s) : s.heap.Rooted := by
  induction hs with
  | start config idle =>
    intro v hv
    rw [show (Session.start config _).heap.barrier.roots = [] from idle] at hv
    cases hv
  | next before o allowed unaided ih => exact rooted_next before.reachable.sound o allowed unaided ih

/-- An operation that fails does no harm: every object that was there has the payload, the type, the size and the
flags that it had, and nothing was queued. The one exception is the operation that hands the roots over, if somebody
has queued what is no object. Then the roots are lost, and those in front of it are forgotten. -/
theorem Reachable.failures_unharmed (hs : Reachable s) (o : Operation α) (allowed : s.Allows o)
    (ho : o.isPiecemeal = false) (hrun : o.perform.runOn s.heap = (.error e, h)) :
    s.heap.Unharmed h ∨ o.takesRoots = true ∧ ¬s.Unaided ∧ s.heap.LosesRoots h := by
  have hsound := hs.sound
  cases htakes : o.takesRoots with
  | false =>
    have hfails := o.fails_new hsound.heap (fun b hb => hsound.builders b (allowed b hb)) ho htakes
    exact .inl (Path.unharmed (hfails.failure e h hrun) hsound.heap)
  | true =>
    cases o with
    | takeRemembered =>
      have hloses := losesRoots_of_takeRemembered hsound.heap hrun
      exact .inr ⟨rfl, fun hunaided => not_rooted_of_losesRoots hloses hunaided.rooted, hloses⟩
    | _ => cases htakes

/-- A vector is to become larger than the heap may be. -/
def overgrow : Operation Unit := .resize (object 80) 1000

theorem failures_unharmed_overgrown :
    Reachable labelled ∧ labelled.Allows overgrow ∧ overgrow.isPiecemeal = false ∧
      ∃ h, overgrow.perform.runOn labelled.heap = (.error (.outOfMemory 8016 4096), h) ∧
        labelled.heap.Unharmed h := by
  have hs : Reachable labelled := ((reachable_start _ _).next _ (by nofun)).next _ (by nofun)
  have hfails : (overgrow.perform.runOn labelled.heap).1 = .error (.outOfMemory 8016 4096) := by decide +kernel
  rcases hrun : overgrow.perform.runOn labelled.heap with ⟨r, h⟩
  rw [hrun] at hfails
  obtain rfl : r = .error (.outOfMemory 8016 4096) := hfails
  rcases hs.failures_unharmed overgrow nofun rfl hrun with hunharmed | ⟨htakes, -⟩
  · exact ⟨hs, nofun, rfl, h, rfl, hunharmed⟩
  · cases htakes

/-- A root was reported by the barrier, and one that is no object was queued behind it. -/
def misqueued : Session := reported.next (.queueRoot (object 4096))

/-- Handing over fails. The first root is not handed over, but is no longer in the queue and has lost its flag. -/
theorem roots_lost_misqueued :
    Reachable misqueued ∧ misqueued.Allows .takeRemembered ∧ Operation.takeRemembered.isPiecemeal = false ∧
      misqueued.heap.barrier.roots = [object 16, object 4096] ∧
      misqueued.heap.gcBits (object 16) = .ok { grownUp with remembered := true } ∧
      ∃ h, Operation.takeRemembered.perform.runOn misqueued.heap = (.error (.invalidTag 4096 .notAnObject), h) ∧
        h.barrier.roots = [] ∧ h.gcBits (object 16) = .ok grownUp ∧ ¬misqueued.heap.Unharmed h := by
  have hs : Reachable misqueued := remembering_reported.reachable.next _ nofun
  have hroots : misqueued.heap.barrier.roots = [object 16, object 4096] := by decide +kernel
  have hbits : misqueued.heap.gcBits (object 16) = .ok { grownUp with remembered := true } := by decide +kernel
  have hcleared : (Operation.takeRemembered.perform.runOn misqueued.heap).2.gcBits (object 16) = .ok grownUp := by
    decide +kernel
  have hempty : (Operation.takeRemembered.perform.runOn misqueued.heap).2.barrier.roots = [] := by decide +kernel
  have hfails : (Operation.takeRemembered.perform.runOn misqueued.heap).1 =
      .error (.invalidTag 4096 .notAnObject) := by decide +kernel
  rcases hrun : Operation.takeRemembered.perform.runOn misqueued.heap with ⟨r, h⟩
  rw [hrun] at hcleared hempty hfails
  obtain rfl : r = .error (.invalidTag 4096 .notAnObject) := hfails
  refine ⟨hs, nofun, rfl, hroots, hbits, h, rfl, hempty, hcleared, fun hunharmed => ?_⟩
  have hqueue := congrArg Barrier.roots hunharmed.queue
  rw [hempty, hroots] at hqueue
  cases hqueue

end Session

end TypedHeap
