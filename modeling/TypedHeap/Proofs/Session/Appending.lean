import TypedHeap.Proofs.Array.Appending
import TypedHeap.Proofs.Session.Unions

/-!
# Values that cannot be appended, along a run

An array with room to spare is what it was after a value could not be appended to it. A full one is not: it moves to
make room, and the value is looked at only then. It keeps the length, the dimensions and the elements, but it has
another buffer, another owner and more room, and pointers into it are not valid any more.

Main result: `Session.Reachable.failed_appends`.
-/

namespace TypedHeap

open Heap ArrayObject

namespace Session

variable {s : Session}

/-- In every heap that operations lead to:

* a value that cannot be appended to an array leaves every object and the queue of the barrier as they were, and
  pointers that were valid are so still, unless the array was full and could have been one longer;
* in that case it is the value that does not fit. The array has moved to a new buffer by then, and stays there. It
  has the length, the dimensions and the elements that it had, no pointer that was valid is so still, and other objects
  are what they were;
* the same goes for arguments of an expression, once the array of its arguments is found. -/
theorem Reachable.failed_appends (hs : Reachable s) :
    (∀ a x e h, (Operation.push a x).perform.runOn s.heap = (.error e, h) → Refused s.heap a x h) ∧
    ∀ ts w x e h, (Operation.pushArgument ts w x).perform.runOn s.heap = (.error e, h) →
      s.heap.Unharmed h ∨ ∃ a h₁, (Nodes.argumentVector ts w).runOn s.heap = (.ok a, h₁) ∧ s.heap.Learns h₁ ∧
        Refused h₁ a x h := by
  have hheap := hs.sound.heap
  refine ⟨fun a x e h hrun => push_refuses hheap hs.belowAbstract hrun, fun ts w x e h hrun => ?_⟩
  have hl := (Nodes.argumentVector_meets (h := s.heap) ts w).kept
  rcases hargs : (Nodes.argumentVector ts w).runOn s.heap with ⟨r | a, h₁⟩
  · have hfail : (Operation.pushArgument ts w x).perform.runOn s.heap = (.error r, h₁) := Action.runOn_bind_error hargs
    cases hfail.symm.trans hrun
    rw [hargs] at hl
    exact .inl ((Path.learns hl).unharmed hheap)
  · have hpush : (push a x).runOn h₁ = (.error e, h) := (Action.runOn_bind_ok hargs).symm.trans hrun
    rw [hargs] at hl
    have hbelow : h₁.types.BelowAbstract := by
      obtain ⟨r, hgrows, rfl⟩ := hl
      intro name f sup
      exact TypeTable.Path.belowAbstract hgrows.types hs.belowAbstract
    exact .inr ⟨a, h₁, rfl, hl, push_refuses (hheap.learns hl) hbelow hpush⟩

/-- An empty vector of small numbers, and a string. -/
def worded : Session :=
  start ⟨64, 4096⟩ .off |>.next (.newVector Builtin.int8 0) |>.next (.newString "s")

theorem reachable_worded : Reachable worded := ((reachable_start _ _).next _ (by nofun)).next _ (by nofun)

/-- A string is appended to the numbers. -/
def appendWord : Operation Unit := .push (object 32) (object 96)

theorem appendWord_fails :
    (appendWord.perform.runOn worded.heap).1 = .error (.typeMismatch "Int8" "String") := by decide +kernel

theorem failed_appends_worded :
    Reachable worded ∧ ∃ h, appendWord.perform.runOn worded.heap = (.error (.typeMismatch "Int8" "String"), h) ∧
      Refused worded.heap (object 32) (object 96) h := by
  have hfails := appendWord_fails
  rcases hrun : appendWord.perform.runOn worded.heap with ⟨r, h⟩
  rw [hrun] at hfails
  obtain rfl : r = .error (.typeMismatch "Int8" "String") := hfails
  exact ⟨reachable_worded, h, rfl, reachable_worded.failed_appends.1 _ _ _ h hrun⟩

/-- What the words of the vector say. -/
def wordedInfo (capacity buffer : Nat) : ArrayInfo :=
  { elem := Builtin.int8
    flags := { ndims := 1, storage := .flat, isShared := false, slotSize := 1 }
    length := 0, capacity, buffer := object buffer }

/-- The string is refused, and the vector has moved all the same. -/
theorem refused_word_moves :
    Reachable worded ∧ (appendWord.perform.runOn worded.heap).1 = .error (.typeMismatch "Int8" "String") ∧
      info worded.heap (object 32) = .ok (wordedInfo 0 16) ∧
      info (worded.next appendWord).heap (object 32) = .ok (wordedInfo 1 128) ∧
      owner worded.heap (object 32) = .ok (object 16) ∧
      owner (worded.next appendWord).heap (object 32) = .ok (object 128) ∧
      (worded.next appendWord).heap.payload (object 32) ≠ worded.heap.payload (object 32) ∧
      isCurrent worded.heap (object 32) ⟨object 16, 24⟩ = .ok true ∧
      isCurrent (worded.next appendWord).heap (object 32) ⟨object 16, 24⟩ = .ok false := by
  have hinfo : info worded.heap (object 32) = .ok (wordedInfo 0 16) := by decide +kernel
  have hinfo' : info (worded.next appendWord).heap (object 32) = .ok (wordedInfo 1 128) := by decide +kernel
  have hs := reachable_worded.sound.heap
  have hs' := (reachable_worded.next appendWord (allows_of_none rfl)).sound.heap
  exact ⟨reachable_worded, appendWord_fails, hinfo, hinfo', hs.owner_eq (hs.info_iff.1 hinfo),
    hs'.owner_eq (hs'.info_iff.1 hinfo'), by decide +kernel, bind_eq_ok.2 ⟨_, hinfo, rfl⟩,
    bind_eq_ok.2 ⟨_, hinfo', rfl⟩⟩

end Session

end TypedHeap
