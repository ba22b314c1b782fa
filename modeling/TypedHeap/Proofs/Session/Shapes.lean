import Mathlib.Algebra.BigOperators.Group.List.Basic
import TypedHeap.Proofs.Array.Positions
import TypedHeap.Proofs.Array.Shapes
import TypedHeap.Proofs.Session.RoundTrip

/-!
# Shapes and positions along a run

Whether an array can be made, or seen in another shape, depends on the rank and the product of the extents, as
long as nothing is too large when the extents are multiplied from left to right. For an array with elements that
says no more than that the product fits in a word. If an extent is zero it depends on what stands in front of
it, so the same extents in another order may be refused. The extents that an array has were counted, so the
arithmetic behind a position never needs more than a word, and positions and element numbers stand for each other.

* `Session.CountsShapes`: which shapes are accepted.

Main results: `Session.Reachable.shapes_counted`, `Session.Reachable.positions_numbered`.
-/

namespace TypedHeap.Session

open Heap ArrayObject

variable {s : Session}

/-! ## Shapes -/

/-- Extents as numbers. -/
def extents (dims : List UInt64) : List Nat := dims.map UInt64.toNat

/-- Somebody asks for a new array, and gets one. -/
def Gives (s : Session) (elem : TypeRef) (dims : List UInt64) : Prop :=
  ∃ a, ((Operation.newArray elem dims).perform.runOn s.heap).1 = .ok a

/-- Somebody asks for a view of an array, and gets one. -/
def GivesView (s : Session) (a : Value) (dims : List UInt64) : Prop :=
  ∃ v, ((Operation.reshape a dims).perform.runOn s.heap).1 = .ok v

/-- Shapes are accepted if their extents are counted and the heap has room for an array of their rank and
product, or for a view. -/
structure CountsShapes (s : Session) : Prop where
  gives : ∀ elem dims, s.Gives elem dims ↔
    Counted (extents dims) ∧ s.heap.SparesArray elem dims.length (extents dims).prod
  refuses : ∀ elem dims, ¬Counted (extents dims) → (Operation.newArray elem dims).perform.runOn s.heap =
    (.error (.invalidArgument ("array dims " ++ toString (extents dims) ++ " overflow")), s.heap)
  givesView : ∀ a f dims, info s.heap a = .ok f → (s.GivesView a dims ↔
    (Counted (extents dims) ∧ (extents dims).prod = f.length) ∧ s.heap.SparesView f.elem dims.length)
  refusesView : ∀ a f dims, info s.heap a = .ok f → ¬(Counted (extents dims) ∧ (extents dims).prod = f.length) →
    (Operation.reshape a dims).perform.runOn s.heap = (.error (.invalidArgument ("cannot reshape " ++
      toString f.length ++ " elements into " ++ toString (extents dims))), s.heap)
  /-- Extents without a zero are counted if their product fits in a word. -/
  counted : ∀ dims, (extents dims).prod ≠ 0 → (Counted (extents dims) ↔ (extents dims).prod ≤ maxWord)
  /-- So the order of such extents makes no difference. -/
  permuted : ∀ dims dims', dims.Perm dims' → (extents dims).prod ≠ 0 →
    (∀ elem, s.Gives elem dims ↔ s.Gives elem dims') ∧
      ∀ a f, info s.heap a = .ok f → (s.GivesView a dims ↔ s.GivesView a dims')

theorem not_gives {elem : TypeRef} {dims : List UInt64} (hnot : ¬Counted (extents dims)) : ¬s.Gives elem dims := by
  rintro ⟨a, ha⟩
  have hrun : (Operation.newArray elem dims).perform.runOn s.heap = _ := runOn_new_uncounted hnot
  rw [hrun] at ha
  cases ha

theorem not_givesView {a : Value} {f : ArrayInfo} {dims : List UInt64} (hf : info s.heap a = .ok f)
    (hnot : ¬Counted (extents dims)) : ¬s.GivesView a dims := by
  rintro ⟨v, hv⟩
  have hrun : (Operation.reshape a dims).perform.runOn s.heap = _ :=
    runOn_reshape_error hf fun hcount => hnot (elementCount_eq_some_iff.1 hcount).1
  rw [hrun] at hv
  cases hv

theorem counted_iff {dims : List Nat} (hne : dims.prod ≠ 0) : Counted dims ↔ dims.prod ≤ maxWord :=
  ⟨Counted.prod_le, counted_of_ne_zero hne⟩

/-- In every heap that operations lead to, shapes are accepted by rank and product, if the extents are counted. -/
theorem Reachable.shapes_counted (hs : Reachable s) : s.CountsShapes := by
  have ho := hs.orderly
  have hinfo {a : Value} {f : ArrayInfo} (hf : info s.heap a = .ok f) : s.heap.IsArray a f :=
    ho.sound.info_iff.1 hf
  have hlength (dims : List UInt64) : (extents dims).length = dims.length := List.length_map _
  have hgives (elem : TypeRef) (dims : List UInt64) : s.Gives elem dims ↔
      Counted (extents dims) ∧ s.heap.SparesArray elem dims.length (extents dims).prod := by
    rw [← hlength dims]
    exact new_succeeds_iff ho Operation.toNat_lt
  have hgivesView {a : Value} {f : ArrayInfo} (hf : info s.heap a = .ok f) (dims : List UInt64) :
      s.GivesView a dims ↔
        (Counted (extents dims) ∧ (extents dims).prod = f.length) ∧ s.heap.SparesView f.elem dims.length := by
    rw [← hlength dims]
    exact reshape_succeeds_iff ho (hinfo hf) Operation.toNat_lt
  refine ⟨hgives, fun elem dims hnot => runOn_new_uncounted hnot, fun a f dims hf => hgivesView hf dims,
    fun a f dims hf hnot => runOn_reshape_error hf fun hcount => ?_, fun dims hne => counted_iff hne,
    fun dims dims' hperm hne => ?_⟩
  · obtain ⟨hcounted, hprod⟩ := elementCount_eq_some_iff.1 hcount
    exact hnot ⟨hcounted, hprod.symm⟩
  · have hprod : (extents dims').prod = (extents dims).prod := (hperm.map _).prod_eq.symm
    have hcounted : Counted (extents dims') ↔ Counted (extents dims) := by
      rw [counted_iff hne, counted_iff (by rwa [hprod]), hprod]
    refine ⟨fun elem => ?_, fun a f hf => ?_⟩
    · rw [hgives, hgives, hcounted, hprod, hperm.length_eq]
    · rw [hgivesView hf, hgivesView hf, hcounted, hprod, hperm.length_eq]

/-- An array without elements. Its last extents are too large to be multiplied. -/
def emptied : Session := start ⟨64, 4096⟩ .off |>.next (.newArray Builtin.int8 [0, 0x8000000000000000, 4])

/-- Two columns of three have room in the heap, and so have three columns of two. -/
theorem shapes_counted_emptied :
    Reachable emptied ∧ emptied.CountsShapes ∧ emptied.Gives Builtin.int8 [2, 3] ∧ emptied.Gives Builtin.int8 [3, 2] := by
  have h : Reachable emptied := (reachable_start _ _).next _ (by nofun)
  have hgives : emptied.Gives Builtin.int8 [2, 3] := ⟨object 144, by decide +kernel⟩
  have hperm : [2, 3].Perm [(3 : UInt64), 2] := .swap 3 2 []
  exact ⟨h, h.shapes_counted, hgives, ((h.shapes_counted.permuted _ _ hperm (by decide)).1 _).1 hgives⟩

/-- Half of all words, four, and zero are multiplied to something too large before the zero is reached. -/
theorem not_counted_late : ¬Counted (extents [0x8000000000000000, 4, 0]) := elementCount_eq_none_iff.1 (by decide)

/-- An array without elements is made if the zero comes first, and refused if it comes last. So are views of it,
although they would have as many elements as it has. -/
theorem zero_comes_too_late :
    [0, 0x8000000000000000, 4].Perm [(0x8000000000000000 : UInt64), 4, 0] ∧
      (extents [0x8000000000000000, 4, 0]).prod = 0 ∧
      (start ⟨64, 4096⟩ .off).Gives Builtin.int8 [0, 0x8000000000000000, 4] ∧
      ¬(start ⟨64, 4096⟩ .off).Gives Builtin.int8 [0x8000000000000000, 4, 0] ∧
      length emptied.heap (object 32) = .ok 0 ∧
      emptied.GivesView (object 32) [0, 4, 0x8000000000000000] ∧
      ¬emptied.GivesView (object 32) [0x8000000000000000, 4, 0] := by
  have hinfo : info emptied.heap (object 32) = .ok ⟨Builtin.int8, ⟨3, .flat, false, 1⟩, 0, 0, object 16⟩ := by
    decide +kernel
  refine ⟨by decide, by decide, ⟨object 32, by decide +kernel⟩, not_gives not_counted_late, ?_,
    ⟨object 112, by decide +kernel⟩, not_givesView hinfo not_counted_late⟩
  rw [ArrayObject.length, hinfo]
  rfl

/-! ## Positions -/

/-- In every heap that operations lead to, the positions in an array, of whatever extents, are numbered in
columns from zero up to its length, and no number on the way to that of a position is too large for a word.
What was asked for as an array, or as a view of one, is an array. -/
theorem Reachable.positions_numbered (hs : Reachable s) :
    (∀ a f, info s.heap a = .ok f → ∃ ds, ColumnMajor s.heap a ds) ∧
      ∀ a ∈ s.arrays, ∃ ds, ColumnMajor s.heap a ds := by
  have hsound := hs.sound
  refine ⟨fun a f hf => hsound.heap.columnMajor (hsound.heap.info_iff.1 hf), fun a ha => ?_⟩
  obtain ⟨f, hf⟩ := hsound.arrays a ha
  exact hsound.heap.columnMajor hf

/-- Three columns of two, seen in three dimensions. -/
def latticed : Session :=
  start ⟨64, 4096⟩ .off
    |>.next (.newArray Builtin.int8 [2, 3])
    |>.next (.reshape (object 48) [3, 1, 2])

/-- Every number below six is the number of exactly one position in the view. -/
theorem positions_numbered_latticed :
    Reachable latticed ∧ object 112 ∈ latticed.arrays ∧ ColumnMajor latticed.heap (object 112) [3, 1, 2] ∧
      linearIndex latticed.heap (object 112) [2, 0, 1] = .ok 5 := by
  have h : Reachable latticed := ((reachable_start _ _).next _ (by nofun)).next _ (by nofun)
  have hmem : object 112 ∈ latticed.arrays := by decide +kernel
  have hdims : dims latticed.heap (object 112) = .ok [3, 1, 2] := by decide +kernel
  obtain ⟨ds, hview⟩ := h.positions_numbered.2 _ hmem
  cases hdims.symm.trans hview.dims
  exact ⟨h, hmem, hview, hview.computed [2, 0, 1] rfl⟩

end TypedHeap.Session
