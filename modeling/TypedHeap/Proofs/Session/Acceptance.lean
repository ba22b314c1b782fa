import TypedHeap.Proofs.Array.Acceptance
import TypedHeap.Proofs.Session.Unions

/-!
# How elements are stored is nobody's business

Whether an array keeps references, bits, or bits with selectors follows from the type of its elements. Who stores in
it need not know: the same values are taken, and the same are read again.

Main result: `Session.Reachable.stores_transparent`.
-/

namespace TypedHeap

open Heap ArrayObject

namespace Session

variable {s : Session} {a x : Value} {elem : TypeRef} {i n : Nat}

/-- In every heap that operations lead to, and for each slot in use of each array:

* whether an object is of a type below the element type is decided;
* the object can be stored if and only if it is;
* once it is stored, reading the slot answers the object itself where references are stored, and else a new object
  of its type with its bits, if there is room for it;
* otherwise the two types are named in the error, and nothing has changed. -/
theorem Reachable.stores_transparent (hs : Reachable s) (helem : elementType s.heap a = .ok elem)
    (hlen : length s.heap a = .ok n) (hi : i < n) (hx : s.heap.Live x) :
    (∃ b, s.heap.isa x elem = .ok b) ∧
    (((Operation.elementWrite a i x).perform.runOn s.heap).1 = .ok () ↔ s.heap.isa x elem = .ok true) ∧
    (∀ h, (Operation.elementWrite a i x).perform.runOn s.heap = (.ok (), h) → ReadBack s.heap h a i x) ∧
    (s.heap.isa x elem = .ok false → ∃ t, s.heap.typeOf x = .ok t ∧
      (Operation.elementWrite a i x).perform.runOn s.heap = (.error (s.heap.types.mismatch elem t), s.heap)) := by
  have hheap := hs.sound.heap
  obtain ⟨f, hf, helem⟩ := bind_eq_ok.1 helem
  obtain ⟨g, hg, hlen⟩ := bind_eq_ok.1 hlen
  cases hf.symm.trans hg
  cases helem
  cases hlen
  obtain ⟨t, ht⟩ := hheap.exists_typeOf hx
  have hisa : s.heap.isa x f.elem = s.heap.types.isa t f.elem := by
    rw [Heap.isa, ht]
    rfl
  have hrun : (Operation.elementWrite a i x).perform.runOn s.heap = (ArrayObject.set a i x).runOn s.heap := rfl
  rw [hisa, hrun]
  rcases set_decided hheap hs.belowAbstract (hheap.info_iff.1 hf) hi ht with ⟨hfits, h, hset, hread⟩ | ⟨hother, hset⟩
  · refine ⟨⟨_, hfits⟩, ⟨fun _ => hfits, fun _ => congrArg Prod.fst hset⟩, fun h' hset' => ?_, fun hother => ?_⟩
    · cases hset.symm.trans hset'
      exact hread
    · cases hfits.symm.trans hother
  · rw [hset]
    refine ⟨⟨_, hother⟩, ⟨fun hstored => ?_, fun hfits => ?_⟩, fun h' hset' => ?_, fun _ => ⟨t, ht, rfl⟩⟩
    · cases hstored
    · cases hother.symm.trans hfits
    · cases hset'

/-- A vector of small bits of two types, and a box of one of them. -/
def mixed : Session :=
  start ⟨64, 4096⟩ .off
    |>.next (.union [Builtin.int8, Builtin.bool])
    |>.next (.newVector (tier 0) 2)
    |>.next (.box .bool true)

theorem stores_transparent_mixed :
    Reachable mixed ∧ storage mixed.heap (object 48) = .ok .selected ∧
      mixed.heap.isa (object 112) (tier 0) = .ok true ∧
      ∃ h, (Operation.elementWrite (object 48) 1 (object 112)).perform.runOn mixed.heap = (.ok (), h) ∧
        ReadBack mixed.heap h (object 48) 1 (object 112) := by
  have hs : Reachable mixed := (((reachable_start _ _).next _ (by nofun)).next _ (by nofun)).next _ (by nofun)
  have helem : elementType mixed.heap (object 48) = .ok (tier 0) := by decide +kernel
  have hlen : length mixed.heap (object 48) = .ok 2 := by decide +kernel
  have hsize : mixed.heap.objectSize (object 112) = .ok 1 := by decide +kernel
  have hfits : mixed.heap.isa (object 112) (tier 0) = .ok true := by decide +kernel
  obtain ⟨-, hstores, hread, -⟩ :=
    hs.stores_transparent helem hlen Nat.one_lt_two ⟨1, objectSize_eq_ok.1 hsize⟩
  have hstored := hstores.2 hfits
  refine ⟨hs, by decide +kernel, hfits, ?_⟩
  rcases hrun : (Operation.elementWrite (object 48) 1 (object 112)).perform.runOn mixed.heap with ⟨r, h⟩
  rw [hrun] at hstored
  cases hstored
  exact ⟨h, rfl, hread h hrun⟩

end Session

end TypedHeap
