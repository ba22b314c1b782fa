import TypedHeap.Proofs.Heap.Alike
import TypedHeap.Proofs.Heap.Order

/-!
# Actions that do not see the collector's state

* `Blind x h`: on every heap that is like `h` but for the collector's state, a run of `x` gives what it gives on
  `h`, and leaves heaps that are alike again.
* `Heap.writeBytes_blind`, `copyBytes_blind`, …: writing. What is written lies in the same place in both heaps, so
  it does not matter where that is; what is copied has to lie inside a payload.
* `Heap.allocate_blind`: new objects.
* `Heap.storeRef_blind`: storing a reference. The barrier does different things to the two heaps, but between
  objects it does not fail in either.

There is one rule for each way of building an action. Where a second part asks for a heap in order,
`Blind.bind_ordered` takes that from what is known of the first part.
-/

namespace TypedHeap

open TypedHeap.Action (Meets runOn_bind_ok runOn_bind_error runOn_look runOn_tryCatch)
open Heap

/-- Questions that go on alike after the same answer. -/
theorem bind_congr_ok {α β : Type} {x : Except Error β} {f g : β → Except Error α}
    (h : ∀ b, x = .ok b → f b = g b) : (x >>= f) = (x >>= g) := by
  cases x with
  | error e => rfl
  | ok b => exact h b rfl

variable {α β : Type} {B : Value → Prop} {h h' k : Heap} {v p c : Value} {n m j off : Nat} {bs : List UInt8}

/-- A run of `x` does not see the collector's state: on heaps that are like `h` otherwise it gives the same answer
or fails with the same error, and leaves heaps that are alike. -/
def Blind (x : HeapM α) (h : Heap) : Prop :=
  ∀ k, Alike h k → (x.runOn k).1 = (x.runOn h).1 ∧ Alike (x.runOn h).2 (x.runOn k).2

namespace Blind

variable {x : HeapM α}

/-! ## Rules -/

theorem of_runOn {r : Except Error α} (hrun : x.runOn h = (r, h'))
    (hx : ∀ k, Alike h k → ∃ k', x.runOn k = (r, k') ∧ Alike h' k') : Blind x h := by
  intro k hk
  obtain ⟨k', hrun', hk'⟩ := hx k hk
  rw [hrun, hrun']
  exact ⟨rfl, hk'⟩

/-- Heaps that are like another one are laid out well. -/
theorem of_arena (hx : h.Arena → Blind x h) : Blind x h := fun k hk => hx hk.arena k hk

theorem pure {a : α} : Blind (Pure.pure a) h := fun _ hk => ⟨rfl, hk⟩

theorem throw {e : Error} : Blind (throw e : HeapM α) h := fun _ hk => ⟨rfl, hk⟩

theorem look {f : Heap → Except Error α} (hf : ∀ k, Alike h k → f k = f h) : Blind (Action.look f) h :=
  fun k hk => ⟨hf k hk, hk⟩

theorem change {f : Heap → Heap} (hf : ∀ k, Alike h k → Alike (f h) (f k)) :
    Blind (modify f : HeapM PUnit) h :=
  fun k hk => ⟨rfl, hf k hk⟩

/-- The second part starts with the answer and the heap that the first part gave. -/
theorem bind_ran {y : HeapM β} {f : β → HeapM α} (hy : Blind y h)
    (hf : ∀ b h', y.runOn h = (.ok b, h') → Blind (f b) h') : Blind (y >>= f) h := by
  intro k hk
  obtain ⟨hsame, hk'⟩ := hy k hk
  rcases hrun : y.runOn h with ⟨r, h'⟩
  rcases hrun' : y.runOn k with ⟨r', k'⟩
  rw [hrun, hrun'] at hsame hk'
  obtain rfl : r' = r := hsame
  cases r' with
  | error e =>
    rw [runOn_bind_error hrun, runOn_bind_error hrun']
    exact ⟨rfl, hk'⟩
  | ok b =>
    rw [runOn_bind_ok hrun, runOn_bind_ok hrun']
    exact hf b h' hrun k' hk'

/-- A second part that is blind wherever it starts. -/
theorem bind_all {y : HeapM β} {f : β → HeapM α} (hy : Blind y h) (hf : ∀ b h', Blind (f b) h') :
    Blind (y >>= f) h :=
  bind_ran hy fun b h' _ => hf b h'

/-- The second part starts where a guarantee says that the first part stops. -/
theorem bind {R : Heap → Heap → Prop} {P : β → Heap → Prop} {y : HeapM β} {f : β → HeapM α} (hy : Blind y h)
    (hm : Meets R y h P) (hf : ∀ b h', R h h' → P b h' → Blind (f b) h') : Blind (y >>= f) h := by
  refine bind_ran hy fun b h' hrun => ?_
  have hkept := hm.kept
  have hanswer := hm.answer b
  rw [hrun] at hkept hanswer
  exact hf b h' hkept (hanswer rfl)

/-- The second part starts in a heap in order. -/
theorem bind_ordered {y : HeapM β} {f : β → HeapM α} (hy : Blind y h) (hb : Behaves B y h)
    (hf : ∀ b h', InOrder B h' → Blind (f b) h') : Blind (y >>= f) h := by
  refine bind_ran hy fun b h' hrun => hf b h' ?_
  have ho := hb.order
  rwa [hrun] at ho

/-- The second part starts in a heap in order of which a guarantee tells more. -/
theorem bind_known {R : Heap → Heap → Prop} {P : β → Heap → Prop} {y : HeapM β} {f : β → HeapM α} (hy : Blind y h)
    (hb : Behaves B y h) (hm : Meets R y h P) (hf : ∀ b h', R h h' → P b h' → InOrder B h' → Blind (f b) h') :
    Blind (y >>= f) h := by
  refine bind hy hm.ran fun b h' hkept hran => ?_
  have ho := hb.order
  rw [hran.1] at ho
  exact hf b h' hkept hran.2 ho

theorem look_bind {f : Heap → Except Error β} {g : β → HeapM α} (hf : ∀ k, Alike h k → f k = f h)
    (hg : ∀ b, f h = .ok b → Blind (g b) h) : Blind (Action.look f >>= g) h := by
  refine bind_ran (look hf) fun b h' hrun => ?_
  rw [runOn_look] at hrun
  obtain ⟨hb, rfl⟩ := Prod.mk.inj hrun
  exact hg b hb

theorem lift_bind {r : Except Error β} {g : β → HeapM α} (hg : ∀ b, r = .ok b → Blind (g b) h) :
    Blind ((liftM r : HeapM β) >>= g) h :=
  look_bind (f := fun _ => r) (fun _ _ => rfl) hg

/-- What is done with the heap as a whole must not depend on the collector's state. -/
theorem get_bind {g : Heap → HeapM α} (hsame : ∀ k, Alike h k → g k = g h) (hg : Blind (g h) h) :
    Blind ((MonadState.get : HeapM Heap) >>= g) h := by
  intro k hk
  rw [runOn_bind_ok (Action.runOn_get k), runOn_bind_ok (Action.runOn_get h), hsame k hk]
  exact hg k hk

theorem pure_bind {b : β} {g : β → HeapM α} (hg : Blind (g b) h) : Blind ((Pure.pure b : HeapM β) >>= g) h := hg

theorem throw_bind {e : Error} {g : β → HeapM α} : Blind ((MonadExcept.throw e : HeapM β) >>= g) h :=
  bind_ran throw fun _ _ hrun => nomatch hrun

theorem guard {c : Prop} [Decidable c] {e : Error} {g : β → HeapM α} {y : HeapM α} (hy : ¬c → Blind y h) :
    Blind (if c then MonadExcept.throw e >>= g else y) h := by
  split
  · exact throw_bind
  · rename_i hc
    exact hy hc

theorem ite {c : Prop} [Decidable c] {y : HeapM α} (hx : c → Blind x h) (hy : ¬c → Blind y h) :
    Blind (if c then x else y) h := by
  split
  · rename_i hc
    exact hx hc
  · rename_i hc
    exact hy hc

/-- A failure is the same failure, so what follows it is told the same. -/
theorem attempt_bind {y : HeapM β} {f : Except Error β → HeapM α} (hy : Blind y h) (hb : Behaves B y h)
    (hf : ∀ r h', InOrder B h' → Blind (f r) h') : Blind (y.attempt >>= f) h := by
  refine bind_ordered (fun k hk => ?_) hb.attempt hf
  obtain ⟨hsame, hk'⟩ := hy k hk
  rw [Action.runOn_attempt, Action.runOn_attempt]
  exact ⟨congrArg Except.ok hsame, hk'⟩

theorem tryCatch {handler : Error → HeapM α} (hx : Blind x h)
    (hh : ∀ e h', x.runOn h = (.error e, h') → Blind (handler e) h') : Blind (tryCatch x handler) h := by
  intro k hk
  obtain ⟨hsame, hk'⟩ := hx k hk
  rw [runOn_tryCatch, runOn_tryCatch]
  rcases hrun : x.runOn h with ⟨r, h'⟩
  rcases hrun' : x.runOn k with ⟨r', k'⟩
  rw [hrun, hrun'] at hsame hk'
  obtain rfl : r' = r := hsame
  cases r' with
  | error e => exact hh e h' hrun k' hk'
  | ok a => exact ⟨rfl, hk'⟩

theorem recover {handle : Error → HeapM α} (hx : Blind x h)
    (hh : ∀ e h', x.runOn h = (.error e, h') → Blind (handle e) h') : Blind (x.recover handle) h :=
  tryCatch hx fun e h' hrun => ite (fun _ => throw) fun _ => hh e h' hrun

/-- Actions that are blind wherever the heap is in order, one after the other. -/
theorem mapM {f : β → HeapM α} {bs : List β} (ho : InOrder B h)
    (hf : ∀ b ∈ bs, ∀ h, InOrder B h → Blind (f b) h ∧ Behaves B (f b) h) : Blind (bs.mapM f) h := by
  induction bs generalizing h with
  | nil =>
    rw [List.mapM_nil]
    exact pure
  | cons b bs ih =>
    rw [List.forall_mem_cons] at hf
    obtain ⟨hblind, hbehaves⟩ := hf.1 h ho
    rw [List.mapM_cons]
    exact bind_ordered hblind hbehaves fun _ _ ho' => bind_all (ih ho' hf.2) fun _ _ => pure

end Blind

namespace Heap

/-! ## Types and symbols -/

theorem onRegistry_blind (x : Action Registry α) : Blind (onRegistry x) h := by
  intro k hk
  rw [onRegistry, Action.runOn_focus, Action.runOn_focus, hk.registry]
  exact ⟨rfl, hk.withRegistry _⟩

theorem onSymbols_blind (x : Action SymbolTable α) : Blind (onSymbols x) h := by
  intro k hk
  rw [onSymbols, Action.runOn_focus, Action.runOn_focus, hk.symbols]
  exact ⟨rfl, hk.withSymbols _⟩

/-! ## Writing -/

theorem writeBytes_blind (off : Nat) (bs : List UInt8) : Blind (writeBytes off bs) h := by
  refine Blind.look_bind (fun _ hk => hk.checkRange_eq off bs.length) fun _ hcheck => ?_
  have hend : off + bs.length ≤ h.top := by
    unfold checkRange at hcheck
    split at hcheck
    · assumption
    · cases hcheck
  exact Blind.change fun _ hk => hk.write hend

theorem writeWord_blind (off n : Nat) : Blind (writeWord off n) h := writeBytes_blind off _

theorem writeRef_blind (off : Nat) (x : Option Value) : Blind (writeRef off x) h := writeBytes_blind off _

theorem clearBytes_blind (off len : Nat) : Blind (clearBytes off len) h :=
  Blind.look_bind (fun _ hk => hk.checkRange_eq off len) fun _ _ => writeBytes_blind off _

/-- What is copied is the same where no flags are. -/
theorem copyBytes_blind (hn : h.size? v = some n) (hend : j + m ≤ n) (dst : Nat) :
    Blind (copyBytes (v.offset + j) m dst) h :=
  Blind.look_bind (fun _ hk => hk.bytes_eq hn hend) fun bs _ => writeBytes_blind dst bs

/-! ## The barrier -/

/-- Between objects the barrier does not fail. -/
theorem writeBarrier_blind (hp : h.Live p) (hc : h.Live c) : Blind (writeBarrier p c) h := by
  intro k hk
  have ha := hk.arena
  have ha' := hk.arena_right
  rw [runOn_writeBarrier ha hp hc, runOn_writeBarrier ha' (hk.live_iff.2 hp) (hk.live_iff.2 hc)]
  exact ⟨rfl, ((alike_guarded ha p c).symm.trans hk).trans (alike_guarded ha' p c)⟩

/-- Writing makes no objects, so what follows it finds the same ones. -/
theorem writeBytes_bind_blind {g : Unit → HeapM α}
    (hg : ∀ h' : Heap, h'.objects = h.objects → Blind (g ⟨⟩) h') : Blind (writeBytes off bs >>= g) h := by
  refine Blind.bind_ran (writeBytes_blind off bs) fun _ h' hrun => hg h' ?_
  cases hcheck : h.checkRange off bs.length with
  | error e =>
    rw [writeBytes, runOn_bind_error (by rw [runOn_look, hcheck])] at hrun
    cases hrun
  | ok _ =>
    rw [writeBytes, runOn_bind_ok (by rw [runOn_look, hcheck])] at hrun
    cases hrun
    rfl

theorem copyBytes_bind_blind {g : Unit → HeapM α} {dst : Nat} (hn : h.size? v = some n) (hend : j + m ≤ n)
    (hg : ∀ h' : Heap, h'.objects = h.objects → Blind (g ⟨⟩) h') :
    Blind (copyBytes (v.offset + j) m dst >>= g) h := by
  rw [copyBytes, bind_assoc]
  exact Blind.look_bind (fun _ hk => hk.bytes_eq hn hend) fun _ _ => writeBytes_bind_blind hg

theorem storeRef_blind (hp : h.Live p) (hc : h.Live c) (off : Nat) : Blind (storeRef p off c) h :=
  writeBytes_bind_blind fun _ hobjects =>
    writeBarrier_blind ((live_congr hobjects).2 hp) ((live_congr hobjects).2 hc)

/-! ## Allocation -/

theorem checkedSize_blind (n : Nat) : Blind (checkedSize n) h :=
  Blind.ite (fun _ => .pure) fun _ => Blind.get_bind (fun _ hk => by rw [hk.limit_eq]) .throw

theorem payloadSize_blind (d : Descriptor) (extra : Nat) : Blind (payloadSize d extra) h := by
  have hsize : Blind (sizeOf d.ref) h := onRegistry_blind _
  have habstract : Blind (do throw (.invalidArgument ("cannot allocate an instance of abstract type " ++
      (← (← get).types.render d.ref))) : HeapM Nat) h :=
    Blind.get_bind (fun _ hk => by rw [hk.types_eq]) (Blind.lift_bind fun _ _ => .throw)
  unfold payloadSize
  cases d.kind
  case string => exact checkedSize_blind _
  case buffer => exact checkedSize_blind _
  case simpleVector => exact checkedSize_blind _
  case array => exact Blind.lift_bind fun p _ => Blind.guard fun _ => hsize
  case abstract => exact habstract
  case union => exact habstract
  all_goals exact Blind.guard fun _ => hsize

/-- A place for an object is found by where the last one ends. -/
theorem place_blind (d : Descriptor) (t : TypeRef) (extra size : Nat) : Blind (place d t extra size) h := by
  refine .of_arena fun ha => ?_
  by_cases hroom : h.nextStart + size ≤ h.limit
  swap
  · refine .of_runOn (runOn_place_error (Nat.not_le.1 hroom)) fun k hk => ⟨k, ?_, hk⟩
    rw [runOn_place_error (by rw [hk.nextStart_eq, hk.limit_eq]; exact Nat.not_le.1 hroom), hk.limit_eq]
  have hreserve : Blind (reserve (h.nextStart + size) (min (size + headerSize) maxWord)) h :=
    .of_runOn (runOn_reserve hroom) fun k hk =>
      ⟨_, runOn_reserve (by rw [hk.limit_eq]; exact hroom), hk.reserved hroom⟩
  refine Blind.get_bind (fun _ hk => by rw [hk.nextStart_eq]) (Blind.bind_ran hreserve fun _ h' hrun => ?_)
  obtain rfl : h.reserved (h.nextStart + size) = h' := (Prod.mk.inj ((runOn_reserve hroom).symm.trans hrun)).2
  have hbounds := h.nextStart_bounds
  split
  · exact .throw
  · rename_i v hv
    have hstart : v.offset = h.nextStart := by
      unfold Value.ofWord? at hv
      split at hv
      · cases hv
        rfl
      · cases hv
    have htop : (h.reserved (h.nextStart + size)).top = h.top := by
      unfold reserved
      split <;> rfl
    have henter : Blind (enter v size) (h.reserved (h.nextStart + size)) := by
      refine Blind.change fun _ hk => hk.entered (by rw [htop]; omega) (by omega) ?_
      have hreach := (reserved_length hroom ha.limit).1
      rwa [hstart]
    refine Blind.bind_all henter fun _ h₁ => Blind.bind_all (writeWord_blind _ _) fun _ h₂ => ?_
    exact Blind.ite (fun _ => Blind.bind_all (writeWord_blind _ _) fun _ _ => .pure) fun _ => .pure

theorem allocate_blind (t : TypeRef) (extra : Nat) : Blind (allocate t extra) h := by
  rw [allocate_eq]
  refine Blind.get_bind (fun _ hk => by rw [hk.types_eq]) (Blind.lift_bind fun d _ => ?_)
  exact Blind.bind_all (payloadSize_blind d extra) fun size _ => place_blind d t extra size

/-! ## Scalars -/

theorem encode_blind (kind : ScalarKind) (x : kind.Carrier) : Blind (encode kind x) h := onSymbols_blind _

theorem storeScalar_blind (off : Nat) (kind : ScalarKind) (x : kind.Carrier) : Blind (storeScalar off kind x) h :=
  Blind.bind_all (encode_blind kind x) fun bs _ => writeBytes_blind off bs

end Heap

end TypedHeap
