import TypedHeap.Action

/-!
# The flags word of an array

One word of an array's payload packs its rank, the way its elements are stored, whether another array
uses the same buffer, and the bytes of one element.

* `ElementStorage`: the three ways of storing elements.
* `ArrayFlags`, `toWord`, `ofWord`: the flags and the word they are packed in.

Main result: `ofWord_toWord`.
-/

namespace TypedHeap

/-- How the elements of an array are stored. -/
inductive ElementStorage where
  /-- The bits of the elements, one after the other. -/
  | flat
  /-- References. -/
  | references
  /-- The bits of the elements in slots as wide as the widest member of a union. A selector byte for
  each slot, behind all the slots, says which member the slot holds. -/
  | selected
  deriving DecidableEq, Repr

namespace ElementStorage

/-- The bit of the flags word that stands for a way of storing elements. -/
def bit : ElementStorage → Nat
  | .flat => 0
  | .references => 0x10000
  | .selected => 0x20000

/-- Selector bytes for a number of slots. -/
def selectorBytes (s : ElementStorage) (slots : Nat) : Nat :=
  match s with
  | .selected => slots
  | _ => 0

end ElementStorage

/-- What the flags word of an array says. -/
structure ArrayFlags where
  ndims : Nat
  storage : ElementStorage
  /-- Another array uses the same buffer, so this one must keep it. -/
  isShared : Bool
  /-- The bytes of one slot. -/
  slotSize : Nat
  deriving DecidableEq, Repr

namespace ArrayFlags

/-- Ranks and slot sizes are packed in sixteen bits each. -/
def fieldLimit : Nat := 0x10000

/-- The packed word. -/
def toWord (f : ArrayFlags) : Nat :=
  f.ndims % fieldLimit + f.storage.bit + (if f.isShared then 0x40000 else 0)
    + f.slotSize % fieldLimit * 0x100000000

/-- The flags packed in a word. -/
def ofWord (n : Nat) : ArrayFlags where
  ndims := n % fieldLimit
  storage :=
    if n / 0x10000 % 2 = 1 then .references else if n / 0x20000 % 2 = 1 then .selected else .flat
  isShared := n / 0x40000 % 2 = 1
  slotSize := n / 0x100000000 % fieldLimit

theorem toWord_lt (f : ArrayFlags) : f.toWord < 0x10000000000000000 := by
  have hn := Nat.mod_lt f.ndims (by decide : 0 < fieldLimit)
  have hs := Nat.mod_lt f.slotSize (by decide : 0 < fieldLimit)
  simp only [fieldLimit] at hn hs
  simp only [toWord, fieldLimit]
  cases f.storage <;> cases f.isShared <;> simp only [ElementStorage.bit] <;> simp <;> omega

/-- Packing loses nothing when rank and slot size fit. -/
theorem ofWord_toWord (f : ArrayFlags) (hn : f.ndims < fieldLimit) (hs : f.slotSize < fieldLimit) :
    ofWord f.toWord = f := by
  obtain ⟨n, st, sh, sz⟩ := f
  simp only [fieldLimit] at hn hs
  have e1 : n % 0x10000 = n := Nat.mod_eq_of_lt hn
  have e2 : sz % 0x10000 = sz := Nat.mod_eq_of_lt hs
  simp only [ofWord, toWord, fieldLimit, e1, e2, ArrayFlags.mk.injEq]
  refine ⟨?_, ?_, ?_, ?_⟩ <;> cases st <;> cases sh <;>
    simp only [ElementStorage.bit, if_true, Bool.false_eq_true, if_false, decide_eq_true_eq,
      decide_eq_false_iff_not] <;>
    first
    | omega
    | (repeat' split) <;> first | rfl | omega

end ArrayFlags

end TypedHeap
