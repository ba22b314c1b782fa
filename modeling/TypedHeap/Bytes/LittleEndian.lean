/-!
# Little-endian numbers

The one encoding behind every word, length and scalar that is stored in memory: a natural number
becomes exactly `w` bytes, least significant first, and bytes become a natural number.

* `toBytes`, `ofBytes`: between numbers and bytes.
* `count`: how many numbers fit in `w` bytes.

Main results: `ofBytes_toBytes` (exact below `count w`), `toBytes_ofBytes`, `ofBytes_lt`.
-/

namespace TypedHeap.LittleEndian

/-- The `w` bytes of `n`, least significant first; what does not fit into `w` bytes is dropped. -/
def toBytes : Nat → Nat → List UInt8
  | 0, _ => []
  | w + 1, n => UInt8.ofNat (n % 256) :: toBytes w (n / 256)

/-- The number with the given bytes, least significant first. -/
def ofBytes : List UInt8 → Nat
  | [] => 0
  | b :: bs => b.toNat + 256 * ofBytes bs

/-- How many numbers fit in `w` bytes. -/
def count : Nat → Nat
  | 0 => 1
  | w + 1 => 256 * count w

/-- A word of eight bytes holds any number of 64 bits. -/
theorem count_eight : count 8 = 0x10000000000000000 := rfl

@[simp] theorem length_toBytes (w n : Nat) : (toBytes w n).length = w := by
  induction w generalizing n with
  | zero => rfl
  | succ w ih => simp [toBytes, ih]

/-- Reading back what was written gives the number, reduced to what `w` bytes can hold. -/
theorem ofBytes_toBytes (w n : Nat) : ofBytes (toBytes w n) = n % count w := by
  induction w generalizing n with
  | zero => simp [toBytes, ofBytes, count, Nat.mod_one]
  | succ w ih =>
    have h : (UInt8.ofNat (n % 256)).toNat = n % 256 := by
      simp [UInt8.toNat_ofNat']
    rw [toBytes, ofBytes, ih, h, count, Nat.mod_mul]

theorem ofBytes_toBytes_of_lt {w n : Nat} (h : n < count w) : ofBytes (toBytes w n) = n := by
  rw [ofBytes_toBytes, Nat.mod_eq_of_lt h]

/-- `w` bytes hold a number below `count w`. -/
theorem ofBytes_lt (bs : List UInt8) : ofBytes bs < count bs.length := by
  induction bs with
  | nil => simp [ofBytes, count]
  | cons b bs ih =>
    have hb : b.toNat < 256 := b.toNat_lt
    rw [ofBytes, List.length_cons, count]
    omega

/-- Writing back what was read gives the bytes. -/
theorem toBytes_ofBytes (bs : List UInt8) : toBytes bs.length (ofBytes bs) = bs := by
  induction bs with
  | nil => rfl
  | cons b bs ih =>
    have hb : b.toNat < 256 := b.toNat_lt
    rw [List.length_cons, toBytes, ofBytes, Nat.add_mul_mod_self_left, Nat.mod_eq_of_lt hb,
      Nat.add_mul_div_left _ _ (by decide), Nat.div_eq_of_lt hb, Nat.zero_add, ih,
      UInt8.ofNat_toNat]

/-- Zero is written as zero bytes. -/
theorem toBytes_zero (w : Nat) : toBytes w 0 = List.replicate w 0 := by
  induction w with
  | zero => rfl
  | succ w ih => simp [toBytes, ih, List.replicate_succ]

end TypedHeap.LittleEndian
