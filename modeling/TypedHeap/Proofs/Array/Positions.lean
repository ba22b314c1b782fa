import Mathlib.Data.List.Forall2
import TypedHeap.Proofs.Array.Contents

/-!
# Positions in several dimensions

A position is one index for each dimension, and the first index runs fastest, so the number of its element
is a numeral whose digits are the indices, each in a base of its own. The loop that computes the number
keeps a stride, the product of the extents that it has seen. Its arithmetic is not checked; it relies on
the extents having been counted when the array was made.

* `ArrayObject.numberOf`, `positionOf`: the number of a position, and the position of a number.
* `ArrayObject.accumulate`: the loop, with everything that it computes on the way.
* `ArrayObject.ColumnMajor`: what numbering the positions of an array is like.

Main result: `Heap.Sound.columnMajor`.
-/

namespace TypedHeap

open Heap

namespace ArrayObject

variable {ds idx rest : List Nat} {position : List (Nat × Nat)} {d i k linear m n stride : Nat}

/-! ## Numerals with a base for each digit -/

/-- The number of a position, the first index running fastest. -/
def numberOf : List Nat → List Nat → Nat
  | d :: ds, i :: idx => i + d * numberOf ds idx
  | _, _ => 0

/-- The position with a number. -/
def positionOf : List Nat → Nat → List Nat
  | [], _ => []
  | d :: ds, n => n % d :: positionOf ds (n / d)

theorem numberOf_lt (h : List.Forall₂ (· < ·) idx ds) : numberOf ds idx < ds.prod := by
  induction h with
  | nil => decide
  | @cons i d idx ds hi _ ih =>
    rw [numberOf, List.prod_cons]
    calc i + d * numberOf ds idx < d + d * numberOf ds idx := Nat.add_lt_add_right hi _
      _ = d * (numberOf ds idx + 1) := by rw [Nat.mul_succ, Nat.add_comm]
      _ ≤ d * ds.prod := Nat.mul_le_mul_left d ih

theorem positionOf_numberOf (h : List.Forall₂ (· < ·) idx ds) : positionOf ds (numberOf ds idx) = idx := by
  induction h with
  | nil => rfl
  | @cons i d idx ds hi _ ih =>
    have hpos : 0 < d := Nat.zero_lt_of_lt hi
    rw [numberOf, positionOf, Nat.add_mul_mod_self_left, Nat.mod_eq_of_lt hi, Nat.add_mul_div_left i _ hpos,
      Nat.div_eq_of_lt hi, Nat.zero_add, ih]

/-- Every number below the product of the extents is the number of a position. -/
theorem numberOf_positionOf (hn : n < ds.prod) :
    List.Forall₂ (· < ·) (positionOf ds n) ds ∧ numberOf ds (positionOf ds n) = n := by
  induction ds generalizing n with
  | nil => exact ⟨.nil, (Nat.lt_one_iff.1 hn).symm⟩
  | cons d ds ih =>
    rw [List.prod_cons] at hn
    have hpos : 0 < d := Nat.pos_of_ne_zero fun hzero => by
      rw [hzero, Nat.zero_mul] at hn
      exact absurd hn (Nat.not_lt_zero n)
    obtain ⟨hbelow, hnumber⟩ := ih (Nat.div_lt_of_lt_mul hn)
    refine ⟨.cons (Nat.mod_lt n hpos) hbelow, ?_⟩
    rw [positionOf, numberOf, hnumber, Nat.mod_add_div]

/-! ## The loop -/

/-- Strides only scale the number of a position. -/
theorem linearFrom_eq_ok (hlength : idx.length = ds.length) :
    linearFrom stride (idx.zip ds) = .ok n ↔ List.Forall₂ (· < ·) idx ds ∧ n = stride * numberOf ds idx := by
  induction idx generalizing ds stride n with
  | nil =>
    obtain rfl : ds = [] := List.length_eq_zero_iff.1 hlength.symm
    exact ⟨fun h => ⟨.nil, (Except.ok.inj h).symm⟩, fun h => congrArg Except.ok h.2.symm⟩
  | cons i idx ih =>
    obtain _ | ⟨d, ds⟩ := ds
    · cases hlength
    have ih {m : Nat} : linearFrom (stride * d) (idx.zip ds) = .ok m ↔
        List.Forall₂ (· < ·) idx ds ∧ m = stride * d * numberOf ds idx := ih (Nat.succ.inj hlength)
    rw [List.zip_cons_cons, linearFrom, List.forall₂_cons]
    by_cases hi : d ≤ i
    · rw [if_pos hi]
      exact ⟨nofun, fun h => absurd h.1.1 (Nat.not_lt.2 hi)⟩
    rw [if_neg hi]
    constructor
    · intro h
      obtain ⟨m, hm, hn⟩ := bind_eq_ok.1 h
      obtain ⟨hbelow, rfl⟩ := ih.1 hm
      refine ⟨⟨Nat.not_le.1 hi, hbelow⟩, (pure_eq_ok.1 hn).symm.trans ?_⟩
      rw [numberOf, Nat.mul_add, Nat.mul_assoc, Nat.mul_comm i]
    · rintro ⟨⟨-, hbelow⟩, rfl⟩
      refine bind_eq_ok.2 ⟨_, ih.2 ⟨hbelow, rfl⟩, congrArg Except.ok ?_⟩
      rw [numberOf, Nat.mul_add, Nat.mul_assoc, Nat.mul_comm i]

/-- The loop that finds the number of a position, given indices with their extents, the sum so far, and the
stride: what it computes, which is a product, a sum, and the next stride for each index that it does not
refuse; and what it ends with. -/
def accumulate (linear stride : Nat) : List (Nat × Nat) → List Nat × Except Error Nat
  | [] => ([], .ok linear)
  | (i, d) :: rest =>
    if d ≤ i then ([], .error (.indexOutOfRange .dimension i d))
    else
      let (computed, answer) := accumulate (linear + i * stride) (stride * d) rest
      (i * stride :: (linear + i * stride) :: (stride * d) :: computed, answer)

/-- The loop ends with the same number, or the same error. -/
theorem accumulate_snd (linear stride : Nat) (position : List (Nat × Nat)) :
    (accumulate linear stride position).2 = (linear + ·) <$> linearFrom stride position := by
  induction position generalizing linear stride with
  | nil => rfl
  | cons p rest ih =>
    obtain ⟨i, d⟩ := p
    rw [accumulate, linearFrom]
    split
    · rfl
    · rw [ih]
      cases linearFrom (stride * d) rest with
      | error e => rfl
      | ok n => exact congrArg Except.ok (Nat.add_assoc _ _ _)

/-- The sum stays below the stride, and the stride is the product of extents that were counted. -/
theorem accumulate_le (hlinear : linear < stride) (hfits : ∀ k, stride * (ds.take k).prod ≤ maxWord)
    (hm : m ∈ (accumulate linear stride (idx.zip ds)).1) : m ≤ maxWord := by
  induction idx generalizing ds linear stride with
  | nil => cases hm
  | cons i idx ih =>
    obtain _ | ⟨d, ds⟩ := ds
    · cases hm
    rw [List.zip_cons_cons, accumulate] at hm
    split at hm
    · cases hm
    rename_i hi
    have hstride : stride * d ≤ maxWord := by simpa using hfits 1
    have hsum : linear + i * stride < stride * d := by
      calc linear + i * stride < stride + i * stride := Nat.add_lt_add_right hlinear _
        _ = stride * (i + 1) := by rw [Nat.mul_succ, Nat.mul_comm i, Nat.add_comm]
        _ ≤ stride * d := Nat.mul_le_mul_left stride (Nat.not_le.1 hi)
    simp only [List.mem_cons] at hm
    rcases hm with rfl | rfl | rfl | hm
    · omega
    · omega
    · exact hstride
    · refine ih hsum (fun k => ?_) hm
      have hnext := hfits (k + 1)
      rwa [List.take_succ_cons, List.prod_cons, ← Nat.mul_assoc] at hnext

/-! ## Arrays -/

/-- Positions in an array that has the extents `ds` are numbered in columns. -/
structure ColumnMajor (h : Heap) (a : Value) (ds : List Nat) : Prop where
  dims : dims h a = .ok ds
  ndims : ndims h a = .ok ds.length
  /-- Positions with an index below the extent for each dimension have a number, and others do not. -/
  accepts : ∀ idx, (∃ n, linearIndex h a idx = .ok n) ↔ List.Forall₂ (· < ·) idx ds
  /-- Numbers are below the length. -/
  inside : ∀ idx n, linearIndex h a idx = .ok n → ∃ len, length h a = .ok len ∧ n < len
  /-- Every number below the length is the number of exactly one position. -/
  onto : ∀ len, length h a = .ok len → ∀ n, n < len → ∃! idx, linearIndex h a idx = .ok n
  /-- The next index in the first dimension is that of the next element. -/
  next : ∀ d rest, ds = d :: rest → ∀ i idx n, i + 1 < d → linearIndex h a (i :: idx) = .ok n →
    linearIndex h a ((i + 1) :: idx) = .ok (n + 1)
  /-- A number is found by the loop, unless there are too many indices or too few. -/
  computed : ∀ idx, idx.length = ds.length → linearIndex h a idx = (accumulate 0 1 (idx.zip ds)).2
  /-- Whatever the indices are, the loop computes nothing that does not fit in a word. -/
  fits : ∀ idx : List Nat, ∀ m ∈ (accumulate 0 1 (idx.zip ds)).1, m ≤ maxWord

end ArrayObject

namespace Heap

open ArrayObject

variable {h : Heap} {a : Value} {f : ArrayInfo} {ds idx : List Nat} {n : Nat}

/-- The extents of an array are counted, and their product is its length. -/
theorem Sound.exists_dims (hs : h.Sound) (ha : h.IsArray a f) :
    ∃ ds, dims h a = .ok ds ∧ ds.length = f.flags.ndims ∧ Counted ds ∧ f.length = ds.prod := by
  obtain ⟨hcounted, hprod⟩ := elementCount_eq_some_iff.1 (hs.arrays ha).count
  exact ⟨_, hs.dims_eq ha, by rw [List.length_map, List.length_range], hcounted, hprod⟩

theorem linearIndex_eq (hd : dims h a = .ok ds) (hlength : idx.length = ds.length) :
    linearIndex h a idx = linearFrom 1 (idx.zip ds) := by
  unfold linearIndex
  rw [hd]
  exact if_neg fun hne => hne hlength

theorem linearIndex_eq_ok (hd : dims h a = .ok ds) :
    linearIndex h a idx = .ok n ↔ List.Forall₂ (· < ·) idx ds ∧ n = numberOf ds idx := by
  by_cases hlength : idx.length = ds.length
  · rw [linearIndex_eq hd hlength, linearFrom_eq_ok hlength, Nat.one_mul]
  · refine ⟨fun hn => ?_, fun hn => absurd hn.1.length_eq hlength⟩
    unfold linearIndex at hn
    rw [hd] at hn
    cases (if_pos hlength).symm.trans hn

/-- Positions in an array are numbered in columns. -/
theorem Sound.columnMajor (hs : h.Sound) (ha : h.IsArray a f) : ∃ ds, ColumnMajor h a ds := by
  obtain ⟨ds, hd, hrank, hcounted, hprod⟩ := hs.exists_dims ha
  have hinfo := hs.info_iff.2 ha
  have hlen : ArrayObject.length h a = .ok ds.prod := by
    rw [ArrayObject.length, hinfo, ← hprod]
    rfl
  refine ⟨ds, hd, ?_, fun idx => ?_, fun idx n hn => ?_, fun len heq n hn => ?_, ?_, fun idx hlength => ?_,
    fun idx m hm => ?_⟩
  · rw [ndims, hinfo, hrank]
    rfl
  · simp only [linearIndex_eq_ok hd, exists_and_left, exists_eq, and_true]
  · obtain ⟨hbelow, rfl⟩ := (linearIndex_eq_ok hd).1 hn
    exact ⟨_, hlen, numberOf_lt hbelow⟩
  · cases hlen.symm.trans heq
    obtain ⟨hbelow, hnumber⟩ := numberOf_positionOf hn
    refine ⟨positionOf ds n, (linearIndex_eq_ok hd).2 ⟨hbelow, hnumber.symm⟩, fun idx hidx => ?_⟩
    obtain ⟨hbelow', rfl⟩ := (linearIndex_eq_ok hd).1 hidx
    exact (positionOf_numberOf hbelow').symm
  · rintro d rest rfl i idx n hi hn
    obtain ⟨hbelow, rfl⟩ := (linearIndex_eq_ok hd).1 hn
    refine (linearIndex_eq_ok hd).2 ⟨.cons hi (List.forall₂_cons.1 hbelow).2, ?_⟩
    rw [numberOf, numberOf, Nat.add_right_comm]
  · rw [linearIndex_eq hd hlength, accumulate_snd]
    cases linearFrom 1 (idx.zip ds) with
    | error e => rfl
    | ok n => exact congrArg Except.ok (Nat.zero_add n).symm
  · exact accumulate_le Nat.zero_lt_one (fun k => by rw [Nat.one_mul]; exact hcounted k) hm

end Heap

end TypedHeap
