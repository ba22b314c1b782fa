import Mathlib.Algebra.BigOperators.Group.List.Basic
import TypedHeap.Array.Basic

/-!
# How many elements an array has

Extents are multiplied from left to right, and every product on the way has to fit in a word. An extent
of zero makes the number of elements zero, but it does not take back a product in front of it that is too
large.

* `Counted`: the products of the first extents fit in a word, however many of them are taken.

Main results: `elementCount_eq_some_iff`, `counted_of_ne_zero`.
-/

namespace TypedHeap.ArrayObject

open Heap (maxWord)

variable {dims : List Nat} {d k m n : Nat}

theorem inWord_eq_some : inWord m = some n ↔ m ≤ maxWord ∧ n = m := by
  unfold inWord
  split
  · rename_i hle
    exact ⟨fun h => ⟨hle, (Option.some.inj h).symm⟩, fun h => congrArg some h.2.symm⟩
  · rename_i hlt
    exact ⟨nofun, fun h => absurd h.1 hlt⟩

/-- The products of the first extents fit in a word, however many of them are taken. -/
def Counted (dims : List Nat) : Prop := ∀ k, (dims.take k).prod ≤ maxWord

theorem foldlM_inWord (hm : m ≤ maxWord) :
    dims.foldlM (fun n d => inWord (n * d)) m = some n ↔
      (∀ k, m * (dims.take k).prod ≤ maxWord) ∧ n = m * dims.prod := by
  induction dims generalizing m with
  | nil =>
    simp only [List.take_nil, List.prod_nil, Nat.mul_one]
    exact ⟨fun h => ⟨fun _ => hm, (Option.some.inj h).symm⟩, fun h => congrArg some h.2.symm⟩
  | cons d dims ih =>
    rw [List.foldlM_cons, Option.bind_eq_bind, Option.bind_eq_some_iff, List.prod_cons, ← Nat.mul_assoc]
    constructor
    · rintro ⟨p, hp, hn⟩
      obtain ⟨hle, rfl⟩ := inWord_eq_some.1 hp
      obtain ⟨hall, rfl⟩ := (ih hle).1 hn
      refine ⟨fun k => ?_, rfl⟩
      cases k with
      | zero => simpa using hm
      | succ k => rw [List.take_succ_cons, List.prod_cons, ← Nat.mul_assoc]; exact hall k
    · rintro ⟨hall, rfl⟩
      have hall (k : Nat) : m * d * (dims.take k).prod ≤ maxWord := by
        have h := hall (k + 1)
        rwa [List.take_succ_cons, List.prod_cons, ← Nat.mul_assoc] at h
      have hle : m * d ≤ maxWord := by simpa using hall 0
      exact ⟨m * d, inWord_eq_some.2 ⟨hle, rfl⟩, (ih hle).2 ⟨hall, rfl⟩⟩

/-- Extents are counted if no product on the way is too large, and their number of elements is the product of
all of them. -/
theorem elementCount_eq_some_iff : elementCount dims = some n ↔ Counted dims ∧ n = dims.prod := by
  have h : elementCount dims = some n ↔ (∀ k, 1 * (dims.take k).prod ≤ maxWord) ∧ n = 1 * dims.prod :=
    foldlM_inWord (by decide)
  simp only [Nat.one_mul] at h
  exact h

theorem Counted.prod_le (h : Counted dims) : dims.prod ≤ maxWord := by
  simpa using h dims.length

theorem elementCount_of_counted (h : Counted dims) : elementCount dims = some dims.prod :=
  elementCount_eq_some_iff.2 ⟨h, rfl⟩

theorem elementCount_eq_none_iff : elementCount dims = none ↔ ¬Counted dims := by
  cases h : elementCount dims with
  | none =>
    refine ⟨fun _ hcounted => ?_, fun _ => rfl⟩
    rw [elementCount_of_counted hcounted] at h
    cases h
  | some n => exact ⟨nofun, fun hnot => absurd (elementCount_eq_some_iff.1 h).1 hnot⟩

/-- The number of elements is the product of the dimensions, and fits in a word. -/
theorem elementCount_eq_some (h : elementCount dims = some n) : n = dims.prod ∧ n ≤ maxWord := by
  obtain ⟨hcounted, rfl⟩ := elementCount_eq_some_iff.1 h
  exact ⟨rfl, hcounted.prod_le⟩

theorem elementCount_single (hn : n ≤ maxWord) : elementCount [n] = some n := by
  refine elementCount_eq_some_iff.2 ⟨fun k => ?_, List.prod_singleton.symm⟩
  cases k with
  | zero => exact show 1 ≤ maxWord by decide
  | succ k => simpa using hn

theorem elementCount_singleton (hn : ¬n < 0x10000000000000000) : elementCount [n] = none := by
  refine elementCount_eq_none_iff.2 fun hcounted => hn ?_
  have hle := hcounted.prod_le
  rw [List.prod_singleton] at hle
  exact Nat.lt_of_le_of_lt hle (by decide)

/-- The first extents multiply up to no more than all of them, unless one of the others is zero. -/
theorem prod_take_le (hne : dims.prod ≠ 0) (k : Nat) : (dims.take k).prod ≤ dims.prod := by
  have hsplit : (dims.take k).prod * (dims.drop k).prod = dims.prod := by
    rw [← List.prod_append, List.take_append_drop]
  have hdrop : 0 < (dims.drop k).prod := by
    refine Nat.pos_of_ne_zero fun hzero => hne ?_
    rw [← hsplit, hzero, Nat.mul_zero]
  calc (dims.take k).prod ≤ (dims.take k).prod * (dims.drop k).prod := Nat.le_mul_of_pos_right _ hdrop
    _ = dims.prod := hsplit

/-- Without a zero among them, extents are counted if their product fits in a word. -/
theorem counted_of_ne_zero (hne : dims.prod ≠ 0) (hle : dims.prod ≤ maxWord) : Counted dims :=
  fun k => Nat.le_trans (prod_take_le hne k) hle

end TypedHeap.ArrayObject
