import TypedHeap.Proofs.Array.Arithmetic
import TypedHeap.Proofs.Session.Layouts

/-!
# Offsets along a run

Offsets into arrays are products and sums of words that nobody checks. At any time they are words themselves, for
whatever array and index, whatever length is asked for and however many elements an array has, even if the elements
take no bytes and no memory limits their number.

* `Session.ComputesInWords`: what is done to arrays, with every step of arithmetic in the range of words.

Main result: `Session.Reachable.offsets_in_range`.
-/

namespace TypedHeap.Session

open Heap

variable {s : Session}

/-- Written out in words, what is done to arrays never stops, and comes to the same. -/
structure ComputesInWords (s : Session) : Prop where
  get : ∀ a i, (InWords.get a i).runOn s.heap = some ((ArrayObject.get a i).runOn s.heap)
  getValue : ∀ a i, (InWords.getValue a i).runOn s.heap = some ((ArrayObject.getValue a i).runOn s.heap)
  set : ∀ a i x, (InWords.set a i x).runOn s.heap = some ((ArrayObject.set a i x).runOn s.heap)
  setScalar : ∀ a i k x, (InWords.setScalar a i k x).runOn s.heap = some ((ArrayObject.setScalar a i k x).runOn s.heap)
  /-- The new length may be any number. -/
  resize : ∀ a n, (InWords.resize a n).runOn s.heap = some ((ArrayObject.resize a n).runOn s.heap)
  push : ∀ a x, (InWords.push a x).runOn s.heap = some ((ArrayObject.push a x).runOn s.heap)

/-- In every heap that operations lead to, no offset into an array leaves the range of words. -/
theorem Reachable.offsets_in_range (hs : Reachable s) : s.ComputesInWords :=
  have hs := hs.sound.heap
  { get := InWords.get_follows hs
    getValue := InWords.getValue_follows hs
    set := InWords.set_follows hs
    setScalar := InWords.setScalar_follows hs
    resize := InWords.resize_follows hs
    push := InWords.push_follows hs }

/-- As many empty tuples as a word counts, and a vector of elements of two sizes. -/
def boundless : Session :=
  start ⟨64, 4096⟩ .off
    |>.next (.tupleType [])
    |>.next (.newVector (tier 0) 0xffffffffffffffff)
    |>.next (.union [Builtin.int16, Builtin.bool])
    |>.next (.newVector (tier 2) 1)
    |>.next (.box .int16 300)

/-- The last of the tuples is read, no more of them are taken, and the other vector moves to a larger buffer. An
index far behind its end would lead out of the range. -/
theorem offsets_in_range_boundless :
    Reachable boundless ∧ boundless.ComputesInWords ∧
      ((InWords.get (object 32) 0xfffffffffffffffe).runOn boundless.heap).map Prod.fst =
        some (.ok (.bits (tier 0) [])) ∧
      ((InWords.push (object 32) (object 32)).runOn boundless.heap).map Prod.fst =
        some (.error (.invalidArgument "array length overflow")) ∧
      ((InWords.push (object 128) (object 192)).runOn boundless.heap).map Prod.fst = some (.ok ()) ∧
      ArrayObject.info boundless.heap (object 128) = .ok ⟨tier 2, ⟨1, .selected, false, 2⟩, 1, 1, object 96⟩ ∧
      (InWords.slot ⟨tier 2, ⟨1, .selected, false, 2⟩, 1, 1, object 96⟩ 104 0x7fffffffffffffff).runOn
        boundless.heap = none := by
  have hs : Reachable boundless :=
    (((((reachable_start _ _).next _ (allows_of_none rfl)).next _ (allows_of_none rfl)).next _
      (allows_of_none rfl)).next _ (allows_of_none rfl)).next _ (allows_of_none rfl)
  have hwords := hs.offsets_in_range
  obtain ⟨hread, hfull, hmoved, hinfo⟩ :
      ((ArrayObject.get (object 32) 0xfffffffffffffffe).runOn boundless.heap).1 = .ok (.bits (tier 0) []) ∧
      ((ArrayObject.push (object 32) (object 32)).runOn boundless.heap).1 =
        .error (.invalidArgument "array length overflow") ∧
      ((ArrayObject.push (object 128) (object 192)).runOn boundless.heap).1 = .ok () ∧
      ArrayObject.info boundless.heap (object 128) = .ok ⟨tier 2, ⟨1, .selected, false, 2⟩, 1, 1, object 96⟩ := by
    decide +kernel
  refine ⟨hs, hwords, ?_, ?_, ?_, hinfo, rfl⟩
  · rw [hwords.get, Option.map_some, hread]
  · rw [hwords.push, Option.map_some, hfull]
  · rw [hwords.push, Option.map_some, hmoved]

end TypedHeap.Session
