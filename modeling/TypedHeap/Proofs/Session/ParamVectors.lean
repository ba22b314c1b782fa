import TypedHeap.Proofs.Object.ParamVectors
import TypedHeap.Proofs.Session.Boxing
import TypedHeap.Proofs.Session.Building
import TypedHeap.Proofs.Session.Contents

/-!
# Vectors of type parameters along a run

A list of type parameters and the vector made of it say the same, and go on to do so: nobody changes the vector or
the boxes in it. So the vectors of different lists differ at every later time.

* `Session.KeepsParams`: when such a vector is made, and what it answers from then on.

Main result: `Session.Reachable.params_kept`.
-/

namespace TypedHeap

open Heap SimpleVector

namespace Session

variable {s t u : Session} {v w : Value} {ps qs : Params}

/-- A vector keeps its boxes, and these keep what they hold. -/
theorem Leads.listsParams (h : Leads s t) (hs : s.Sound) (hf : s.Final v) (hv : ListsParams s.heap v ps) :
    ListsParams t.heap v ps := by
  obtain ⟨items, hl, hboxes⟩ := hv
  exact ⟨items, h.lists hs hf hl, hboxes.imp fun _ _ hb => h.boxes hs hb⟩

/-- A new vector of parameters has their boxes. Nobody has a builder for it. -/
theorem Reachable.listsParams_next (hs : Reachable s) (hrun : s.answer (.simpleVectorOfParams ps) = .ok v) :
    (s.next (.simpleVectorOfParams ps)).Final v ∧
      ListsParams (s.next (.simpleVectorOfParams ps)).heap v ps := by
  have hmade : (Operation.simpleVectorOfParams ps).perform.runOn s.heap =
      (.ok v, ((Operation.simpleVectorOfParams ps).perform.runOn s.heap).2) := Prod.ext hrun rfl
  obtain ⟨hfresh, hv⟩ := ofParams_lists hs.orderly hmade
  rw [← next_heap] at hv
  have hsound := next_sound hs.sound (.simpleVectorOfParams ps) (allows_of_none rfl)
  have hunbuilt : ∀ b ∈ (s.next (.simpleVectorOfParams ps)).builders, b.value ≠ v := by
    rintro b hb rfl
    rw [next_ok hmade] at hb
    exact hfresh (live_of_typeOf (hs.sound.builders b hb).type)
  have htype : (s.next (.simpleVectorOfParams ps)).heap.typeOf v = .ok Builtin.simpleVector := by
    obtain ⟨items, hl, -⟩ := hv
    exact hl.type
  exact ⟨hsound.final_of_vector htype hunbuilt, hv⟩

/-- It has them at every later time. -/
theorem Reachable.listsParams_later (hs : Reachable s) (hrun : s.answer (.simpleVectorOfParams ps) = .ok v)
    (h : Leads (s.next (.simpleVectorOfParams ps)) u) : ListsParams u.heap v ps := by
  obtain ⟨hfinal, hv⟩ := hs.listsParams_next hrun
  exact h.listsParams (next_sound hs.sound _ (allows_of_none rfl)) hfinal hv

/-- Vectors that say what the parameters say which they are made of. -/
structure KeepsParams (s : Session) : Prop where
  /-- With room for it, a vector is made exactly if the types among the parameters are registered. -/
  made : ∀ ps, s.heap.Affords (paramsDemand ps) →
    ((∃ v, s.answer (.simpleVectorOfParams ps) = .ok v) ↔ ∀ t ∈ ps.types, s.heap.types.contains t = true)
  /-- Its elements are boxes of the parameters, at every later time. -/
  held : ∀ ps v, s.answer (.simpleVectorOfParams ps) = .ok v →
    ∀ u, Leads (s.next (.simpleVectorOfParams ps)) u → HoldsParams u.heap v ps
  /-- It differs from every vector of other parameters, whenever that is made. -/
  differ : ∀ ps qs v w t u, s.answer (.simpleVectorOfParams ps) = .ok v →
    Leads (s.next (.simpleVectorOfParams ps)) t → t.answer (.simpleVectorOfParams qs) = .ok w →
    Leads (t.next (.simpleVectorOfParams qs)) u → ps ≠ qs → Differ u.heap v w

/-- In every heap that operations lead to, type parameters and the vectors made of them say the same. -/
theorem Reachable.params_kept (hs : Reachable s) : s.KeepsParams where
  made ps hroom := by
    constructor
    · rintro ⟨v, hrun⟩
      exact registered_of_ofParams hrun
    · intro hps
      obtain ⟨v, h, hrun⟩ := ofParams_succeeds hs.orderly hps hroom
      exact ⟨v, congrArg Prod.fst hrun⟩
  held ps v hrun u h := by
    have hu : Reachable u := (hs.next _ (allows_of_none rfl)).leads h
    exact (hs.listsParams_later hrun h).holds hu.sound.heap
  differ ps qs v w t u hrun h hrun' h' hne := by
    have ht : Reachable t := (hs.next _ (allows_of_none rfl)).leads h
    have hu : Reachable u := (ht.next _ (allows_of_none rfl)).leads h'
    have hv : ListsParams u.heap v ps :=
      hs.listsParams_later hrun (h.trans ((Leads.refl.next _ (allows_of_none rfl)).trans h'))
    exact hv.differ (ht.listsParams_later hrun' h') hu.sound.heap hne

/-- A vector of a type and a number. -/
def described : Session := start ⟨64, 4096⟩ .off |>.next (.simpleVectorOfParams [.type Builtin.int8, .int 5])

/-- The vector holds them, and differs from one that is made of the number and a truth value later. No vector is made
of a type that is not registered, although there is room for it. -/
theorem params_kept_described :
    Reachable described ∧ (start ⟨64, 4096⟩ .off).KeepsParams ∧
      (start ⟨64, 4096⟩ .off).answer (.simpleVectorOfParams [.type Builtin.int8, .int 5]) = .ok (object 48) ∧
      HoldsParams described.heap (object 48) [.type Builtin.int8, .int 5] ∧
      described.answer (.simpleVectorOfParams [.int 5, .bool true]) = .ok (object 112) ∧
      Differ (described.next (.simpleVectorOfParams [.int 5, .bool true])).heap (object 48) (object 112) ∧
      described.heap.Affords (paramsDemand [.type (tier 0)]) ∧
      ¬∃ v, described.answer (.simpleVectorOfParams [.type (tier 0)]) = .ok v := by
  have hstart : Reachable (start ⟨64, 4096⟩ .off) := reachable_start _ _
  have hs : Reachable described := hstart.next _ (allows_of_none rfl)
  have hkeeps := hstart.params_kept
  have hrun : (start ⟨64, 4096⟩ .off).answer (.simpleVectorOfParams [.type Builtin.int8, .int 5]) =
      .ok (object 48) := by decide +kernel
  have hrun' : described.answer (.simpleVectorOfParams [.int 5, .bool true]) = .ok (object 112) := by decide +kernel
  have hroom : described.heap.Affords (paramsDemand [.type (tier 0)]) := ⟨by decide +kernel, trivial⟩
  refine ⟨hs, hkeeps, hrun, hkeeps.held _ _ hrun _ .refl, hrun', ?_, hroom, ?_⟩
  · exact hkeeps.differ _ _ _ _ _ _ hrun .refl hrun' .refl (by decide)
  · rw [hs.params_kept.made _ hroom]
    decide +kernel

end Session

end TypedHeap
