import TypedHeap.Proofs.Heap.Remembering
import TypedHeap.Proofs.Session.Run

/-!
# The remembered set along a run

The collector may change the flags of any object, as long as it leaves `REMEMBERED` to the barrier, and may take
the queue at any time. The queue and the flags agree then at every moment, unless somebody else has queued something.

* `Operation.LeavesRemembered`: an operation leaves the flag to the barrier.
* `Session.Remembering aided config taken`: runs of such operations in which the roots `taken` were handed over.

Main result: `Session.Remembering.roots_agree`.
-/

namespace TypedHeap

open TypedHeap.Action (Meets)
open Heap

/-- An operation leaves `REMEMBERED` as it is and takes nothing from the queue. The barrier may change both in the
course of it. -/
def Operation.LeavesRemembered {α : Type} : Operation α → Heap → Prop
  | .setGcBits v g, h => ∀ b, h.gcBits v = .ok b → g.remembered = b.remembered
  | .drainRoots, _ | .takeRemembered, _ => False
  | _, _ => True

namespace Session

variable {α : Type} {s : Session} {config : HeapConfig} {taken : List Value}

/-- The roots that the collector gets if it takes them now. -/
def handedOver (s : Session) : List Value :=
  match (Operation.takeRemembered.perform.runOn s.heap).1 with
  | .ok roots => roots
  | .error _ => []

/-- Sessions with a new heap that remembers, in which nobody but the barrier set or cleared `REMEMBERED`, and `taken`
was taken from the queue. If the barrier is `aided`, others may have queued something as well. -/
inductive Remembering (aided : Bool) (config : HeapConfig) : List Value → Session → Prop
  | start : Remembering aided config [] (start config (.remembering []))
  | next {α : Type} {taken : List Value} {s : Session} (before : Remembering aided config taken s) (o : Operation α)
      (allowed : s.Allows o) (leaves : o.LeavesRemembered s.heap) (queues : o.queuesByHand = true → aided = true) :
      Remembering aided config taken (s.next o)
  | take {taken : List Value} {s : Session} (before : Remembering aided config taken s) :
      Remembering aided config (taken ++ s.handedOver) (s.next .takeRemembered)

theorem Remembering.reachable {aided : Bool} (hs : Remembering aided config taken s) : Reachable s := by
  induction hs with
  | start => exact reachable_start config _
  | next _ o allowed _ _ ih => exact ih.next o allowed
  | take _ ih => exact ih.next .takeRemembered (allows_of_none rfl)

/-- Whatever an operation does, the barrier is told of it in some order. -/
theorem tells_next (hs : s.Sound) (o : Operation α) (allowed : s.Allows o) (leaves : o.LeavesRemembered s.heap)
    (queues : o.queuesByHand = false) : ∃ ps, Tells ps s.heap (s.next o).heap := by
  rw [next_heap]
  cases hcollector : o.isForCollector with
  | false =>
    have hm := o.stores_meets hs.heap (fun b hb => hs.builders b (allowed b hb)) hcollector
    exact Path.tells hm.kept hs.heap
  | true =>
    cases o with
    | setGcBits v g =>
      by_cases hv : s.heap.Live v
      · have hsame := leaves _ (gcBits_eq hs.heap.arena hv)
        show ∃ ps, Tells ps s.heap ((setGcBits v g).runOn s.heap).2
        rw [runOn_setFlags hs.heap.arena hv g]
        exact ⟨[], setFlags_tells hs.heap.arena hv hsame⟩
      · have hdead : Meets (fun h h' => h' = h) (setGcBits v g) s.heap fun _ _ => True :=
          Meets.look_bind fun _ hw => absurd (header_eq_ok.1 hw).1 hv
        have hsame : ((setGcBits v g).runOn s.heap).2 = s.heap := hdead.kept
        show ∃ ps, Tells ps s.heap ((setGcBits v g).runOn s.heap).2
        rw [hsame]
        exact ⟨[], .refl s.heap⟩
    | writeBarrier parent child =>
      rcases guarded_tells hs.heap.arena parent child with htold | htold
      · exact ⟨[], htold⟩
      · exact ⟨[parent], htold⟩
    | queueRoot v => cases queues
    | drainRoots => exact leaves.elim
    | takeRemembered => exact leaves.elim
    | _ => cases hcollector

/-- By induction on the run: the books are kept. -/
theorem Remembering.books (hs : Remembering false config taken s) : Books taken.length s.heap := by
  induction hs with
  | start =>
    have hempty (v : Value) : ¬(Session.start config (.remembering [])).heap.Remembered v := by
      rintro ⟨g, hg, -⟩
      obtain ⟨n, hn⟩ := ((gcBits_eq_ok (start_sound config (.remembering [])).heap.arena).1 hg).1
      cases hn
    exact ⟨rfl, fun v => ⟨fun hv => absurd hv (hempty v), nofun⟩, .nil, rfl⟩
  | next before o allowed leaves queues ih =>
    have hqueues : o.queuesByHand = false := Bool.eq_false_iff.2 fun hqueues => Bool.false_ne_true (queues hqueues)
    obtain ⟨ps, hps⟩ := tells_next before.reachable.sound o allowed leaves hqueues
    exact ih.tells hps
  | @take taken s before ih =>
    obtain ⟨h', hrun, -, -, hbooks⟩ := ih.runOn_takeRemembered before.reachable.sound.heap
    have hroots : s.handedOver = s.heap.barrier.roots := by
      rw [handedOver, show (Operation.takeRemembered).perform.runOn s.heap = _ from hrun]
    rw [next_heap, show (Operation.takeRemembered).perform.runOn s.heap = _ from hrun, hroots, List.length_append]
    exact hbooks

/-- At every moment of a run in which `REMEMBERED` is left to the barrier, and so is who waits in the queue:

* an object has the flag exactly if it is among the roots, and the roots are objects, each of them once;
* an operation that is not the collector's leaves the roots where they stand in the queue, and those that it
  flags come after them;
* taking the roots works, gives exactly these, in this order, and leaves nothing in the queue, no object with
  the flag, and all other flags as they are;
* the barrier has counted the roots that there are and those that were taken before. -/
theorem Remembering.roots_agree (hs : Remembering false config taken s) :
    (∀ v, s.heap.Live v → (s.heap.Remembered v ↔ v ∈ s.heap.barrier.roots)) ∧
    (∀ v ∈ s.heap.barrier.roots, s.heap.Live v) ∧
    s.heap.barrier.roots.Nodup ∧
    (∀ {β : Type} (o : Operation β), s.Allows o → o.LeavesRemembered s.heap → o.queuesByHand = false →
      ∃ ps, (s.next o).heap.barrier.roots = s.heap.barrier.roots ++ ps ∧
        ∀ v, v ∈ ps ↔ (s.next o).heap.Remembered v ∧ ¬s.heap.Remembered v) ∧
    (∃ h, Operation.takeRemembered.perform.runOn s.heap = (.ok s.heap.barrier.roots, h) ∧ h.barrier.roots = [] ∧
      ∀ v, ¬h.Remembered v ∧ h.gcBits v = (s.heap.gcBits v).map fun g => { g with remembered := false }) ∧
    s.heap.stats.barrierHits = s.heap.barrier.roots.length + taken.length := by
  have hsound := hs.reachable.sound
  have hbooks := hs.books
  refine ⟨fun v _ => hbooks.remembered v, hbooks.rooted hsound.heap.arena, hbooks.nodup,
    fun o allowed leaves queues => ?_, ?_, hbooks.hits⟩
  · obtain ⟨ps, hps⟩ := tells_next hsound o allowed leaves queues
    exact ⟨ps, hbooks.roots_tells hps, fun v => hps.mem_iff⟩
  · obtain ⟨h, hrun, hroots, hbits, -⟩ := hbooks.runOn_takeRemembered hsound.heap
    exact ⟨h, hrun, hroots, fun v => ⟨not_remembered_of_gcBits (hbits v), hbits v⟩⟩

/-- The flag of the old generation alone. -/
def grownUp : GcBits := ⟨false, true, false, false⟩

/-- Two old vectors and a young string, which goes into the first vector. -/
def reported : Session :=
  start ⟨64, 4096⟩ (.remembering [])
    |>.next (.build 1)
    |>.next (.build 2)
    |>.next (.setGcBits (object 16) grownUp)
    |>.next (.setGcBits (object 48) grownUp)
    |>.next (.newString "text")
    |>.next (.builderSet ⟨object 16, 1⟩ 0 (object 80))

/-- The collector takes the first vector. Then the string goes into the second one, and once more into the first
one. -/
def reportedAgain : Session :=
  reported
    |>.next .takeRemembered
    |>.next (.builderSet ⟨object 48, 2⟩ 1 (object 80))
    |>.next (.builderSet ⟨object 16, 1⟩ 0 (object 80))

theorem remembering_reported : Remembering false ⟨64, 4096⟩ [] reported := by
  have hyoung {s : Session} {v : Value} (hbits : s.heap.gcBits v = .ok GcBits.none) :
      (Operation.setGcBits v grownUp).LeavesRemembered s.heap := fun b hb => by
    cases hbits.symm.trans hb
    rfl
  have h₀ : Remembering false ⟨64, 4096⟩ [] _ := .start
  have h₁ := h₀.next (.build 1) (allows_of_none rfl) trivial nofun
  have h₂ := h₁.next (.build 2) (allows_of_none rfl) trivial nofun
  have h₃ := h₂.next (.setGcBits (object 16) grownUp) (allows_of_none rfl) (hyoung (by decide +kernel)) nofun
  have h₄ := h₃.next (.setGcBits (object 48) grownUp) (allows_of_none rfl) (hyoung (by decide +kernel)) nofun
  have h₅ := h₄.next (.newString "text") (allows_of_none rfl) trivial nofun
  exact h₅.next (.builderSet ⟨object 16, 1⟩ 0 (object 80)) (allows_of_mem rfl (by decide +kernel)) trivial nofun

theorem remembering_reportedAgain : Remembering false ⟨64, 4096⟩ [object 16] reportedAgain := by
  have htaken : [] ++ reported.handedOver = [object 16] := by decide +kernel
  have h₁ := remembering_reported.take
  rw [htaken] at h₁
  have h₂ := h₁.next (.builderSet ⟨object 48, 2⟩ 1 (object 80)) (allows_of_mem rfl (by decide +kernel)) trivial nofun
  exact h₂.next (.builderSet ⟨object 16, 1⟩ 0 (object 80)) (allows_of_mem rfl (by decide +kernel)) trivial nofun

theorem roots_agree_reportedAgain :
    Remembering false ⟨64, 4096⟩ [object 16] reportedAgain ∧
      reportedAgain.heap.barrier.roots = [object 48, object 16] ∧
      reportedAgain.heap.Remembered (object 16) ∧ ¬reportedAgain.heap.Remembered (object 80) ∧
      reportedAgain.heap.stats.barrierHits = 2 + [object 16].length := by
  have hagree := remembering_reportedAgain.roots_agree
  have hroots : reportedAgain.heap.barrier.roots = [object 48, object 16] := by decide +kernel
  rw [hroots] at hagree
  refine ⟨remembering_reportedAgain, hroots, ?_, fun htext => ?_, hagree.2.2.2.2.2⟩
  · exact (hagree.1 _ (hagree.2.1 _ (by decide))).2 (by decide)
  · have hlive := ((gcBits_eq_ok remembering_reportedAgain.reachable.sound.heap.arena).1 htext.choose_spec.1).1
    exact absurd ((hagree.1 _ hlive).1 htext) (by decide)

/-- A buffer that is queued twice, though nothing was stored. -/
def queuedTwice : Session :=
  start ⟨64, 4096⟩ (.remembering [])
    |>.next (.newBuffer 8)
    |>.next (.queueRoot (object 16))
    |>.next (.queueRoot (object 16))

/-- Who queues something beside the barrier sets no flag, may queue it again, and is not counted. -/
theorem roots_disagree_queuedTwice :
    Remembering true ⟨64, 4096⟩ [] queuedTwice ∧ queuedTwice.heap.Live (object 16) ∧
      queuedTwice.heap.barrier.roots = [object 16, object 16] ∧ ¬queuedTwice.heap.barrier.roots.Nodup ∧
      ¬queuedTwice.heap.Remembered (object 16) ∧
      queuedTwice.heap.stats.barrierHits ≠ queuedTwice.heap.barrier.roots.length + ([] : List Value).length := by
  have h₀ : Remembering true ⟨64, 4096⟩ [] _ := .start
  have h₁ := h₀.next (.newBuffer 8) (allows_of_none rfl) trivial nofun
  have h₂ := h₁.next (.queueRoot (object 16)) (allows_of_none rfl) trivial fun _ => rfl
  have hs : Remembering true ⟨64, 4096⟩ [] queuedTwice :=
    h₂.next (.queueRoot (object 16)) (allows_of_none rfl) trivial fun _ => rfl
  have hroots : queuedTwice.heap.barrier.roots = [object 16, object 16] := by decide +kernel
  have hbits : queuedTwice.heap.gcBits (object 16) = .ok GcBits.none := by decide +kernel
  have hhits : queuedTwice.heap.stats.barrierHits = 0 := by decide +kernel
  refine ⟨hs, ((gcBits_eq_ok hs.reachable.sound.heap.arena).1 hbits).1, hroots, ?_, ?_, ?_⟩
  · rw [hroots]
    decide
  · rintro ⟨g, hg, hflag⟩
    cases hbits.symm.trans hg
    cases hflag
  · rw [hroots, hhits]
    decide

end Session

end TypedHeap
