/-!
# Zero-initialised memory

A `Memory` is a row of bytes of some length, all zero when it is made. Only the part up to the last
byte ever written is stored, so a long memory costs nothing until it is used; `Memory.get` reads
zero from the rest and from beyond the end.

* `get`, `window`: one byte, and a run of bytes as a list.
* `write`: overwrite a run of bytes; bytes past the end are dropped.
* `grow`: more zero bytes at the end.

Main results: `get_write`, `window_write_self`, `window_write_of_disjoint`, `get_grow`.
-/

namespace TypedHeap

/-- A row of `length` bytes of which those from `stored.size` on have never been written. -/
structure Memory where
  /-- How many bytes there are. -/
  length : Nat
  /-- The bytes up to the last one written. -/
  stored : ByteArray
  stored_le : stored.size ≤ length

namespace Memory

/-! ## Bytes that are there and bytes that are not -/

/-- `n` more zero bytes at the end of an array of bytes. -/
def pad : Nat → ByteArray → ByteArray
  | 0, bs => bs
  | n + 1, bs => pad n (bs.push 0)

@[simp] theorem size_pad (n : Nat) (bs : ByteArray) : (pad n bs).size = bs.size + n := by
  induction n generalizing bs with
  | zero => rfl
  | succ n ih => rw [pad, ih, ByteArray.size_push]; omega

/-- The byte at an index of an array of bytes, zero beyond its end. -/
def byteAt (bs : ByteArray) (i : Nat) : UInt8 :=
  if h : i < bs.size then bs[i] else 0

theorem byteAt_push (bs : ByteArray) (b : UInt8) (i : Nat) :
    byteAt (bs.push b) i = if i = bs.size then b else byteAt bs i := by
  have hs : (bs.push b).size = bs.size + 1 := ByteArray.size_push
  have hg (h : i < (bs.push b).size) : (bs.push b)[i] = getElem (bs.data.push b) i h := rfl
  have hb (h : i < bs.size) : bs[i] = getElem bs.data i h := rfl
  have hd : bs.size = bs.data.size := rfl
  unfold byteAt
  by_cases h : i < bs.size
  · have hne : i ≠ bs.size := by omega
    rw [dif_pos (by omega), dif_pos h, hg, hb, if_neg hne, Array.getElem_push_lt]
  · by_cases he : i = bs.size
    · rw [dif_pos (by omega), if_pos he, hg]
      simp only [hd] at he
      subst he
      exact Array.getElem_push_eq
    · rw [dif_neg (by omega), dif_neg h, if_neg he]

@[simp] theorem byteAt_pad (n : Nat) (bs : ByteArray) (i : Nat) :
    byteAt (pad n bs) i = byteAt bs i := by
  induction n generalizing bs with
  | zero => rfl
  | succ n ih =>
    rw [pad, ih, byteAt_push]
    split
    · rename_i h; subst h; simp [byteAt]
    · rfl

/-- Replace the byte at an index, with zero bytes put in front of it where there were none. -/
def put (bs : ByteArray) (i : Nat) (b : UInt8) : ByteArray :=
  if h : i < bs.size then bs.set i b h else (pad (i - bs.size) bs).push b

theorem size_put (bs : ByteArray) (i : Nat) (b : UInt8) :
    (put bs i b).size = max bs.size (i + 1) := by
  unfold put
  split
  · rename_i h
    have : (bs.set i b h).size = bs.size := by
      show (bs.data.set i b h).size = bs.data.size
      simp
    omega
  · rw [ByteArray.size_push, size_pad]; omega

theorem byteAt_put (bs : ByteArray) (i : Nat) (b : UInt8) (j : Nat) :
    byteAt (put bs i b) j = if j = i then b else byteAt bs j := by
  unfold put
  split
  · rename_i h
    have hs : (bs.set i b h).size = bs.size := by
      show (bs.data.set i b h).size = bs.data.size
      simp
    unfold byteAt
    by_cases hj : j < bs.size
    · have hj' : j < (bs.data.set i b h).size := by simpa using hj
      have hg : getElem (bs.set i b h) j (by omega) = getElem (bs.data.set i b h) j hj' := rfl
      have hb : bs[j] = getElem bs.data j hj := rfl
      rw [dif_pos (by omega), dif_pos hj, hg, hb, Array.getElem_set]
      by_cases e : j = i
      · simp [e]
      · simp [e, Ne.symm e]
    · rw [dif_neg (by omega), dif_neg hj, if_neg (by omega)]
  · rename_i h
    rw [byteAt_push, byteAt_pad, size_pad]
    have : bs.size + (i - bs.size) = i := by omega
    rw [this]

/-! ## Memories -/

/-- `n` bytes, all zero. -/
def zeros (n : Nat) : Memory := ⟨n, ByteArray.empty, Nat.zero_le n⟩

/-- The byte at an offset, zero beyond the end. -/
def get (m : Memory) (i : Nat) : UInt8 := byteAt m.stored i

/-- Replace the byte at an offset; an offset beyond the end changes nothing. -/
def set (m : Memory) (i : Nat) (b : UInt8) : Memory :=
  if h : i < m.length then
    ⟨m.length, put m.stored i b, by have := m.stored_le; rw [size_put]; omega⟩
  else m

/-- The bytes at `off`, `off + 1`, …, `off + len - 1`. -/
def window (m : Memory) (off len : Nat) : List UInt8 :=
  (List.range len).map fun k => m.get (off + k)

/-- Overwrite the bytes from `off` on; what falls beyond the end is dropped. -/
def write (m : Memory) (off : Nat) : List UInt8 → Memory
  | [] => m
  | b :: bs => (m.set off b).write (off + 1) bs

/-- A memory of at least `n` bytes: the old ones, then zeros. -/
def grow (m : Memory) (n : Nat) : Memory :=
  ⟨max m.length n, m.stored, Nat.le_trans m.stored_le (Nat.le_max_left ..)⟩

/-! ## What the operations do to the bytes -/

@[simp] theorem length_zeros (n : Nat) : (zeros n).length = n := rfl

@[simp] theorem get_zeros (n i : Nat) : (zeros n).get i = 0 := by
  simp [zeros, get, byteAt]

@[simp] theorem length_grow (m : Memory) (n : Nat) : (m.grow n).length = max m.length n := rfl

@[simp] theorem get_grow (m : Memory) (n i : Nat) : (m.grow n).get i = m.get i := rfl

@[simp] theorem length_set (m : Memory) (i : Nat) (b : UInt8) : (m.set i b).length = m.length := by
  unfold set; split <;> rfl

/-- A byte beyond the end reads as zero. -/
theorem get_of_length_le (m : Memory) {i : Nat} (h : m.length ≤ i) : m.get i = 0 := by
  have := m.stored_le
  simp only [get, byteAt]
  rw [dif_neg (by omega)]

theorem get_set (m : Memory) (i : Nat) (b : UInt8) (j : Nat) :
    (m.set i b).get j = if j = i ∧ j < m.length then b else m.get j := by
  unfold set
  split
  · rename_i h
    show byteAt (put m.stored i b) j = _
    rw [byteAt_put]
    by_cases e : j = i
    · subst e; simp [h]
    · simp [e, get]
  · rename_i h
    rw [if_neg (by omega)]

@[simp] theorem length_write (m : Memory) (off : Nat) (bs : List UInt8) :
    (m.write off bs).length = m.length := by
  induction bs generalizing m off with
  | nil => rfl
  | cons b bs ih => rw [write, ih, length_set]

/-- After a write the written bytes are read back and every other byte is as before. -/
theorem get_write (m : Memory) (off : Nat) (bs : List UInt8) (j : Nat) :
    (m.write off bs).get j =
      if off ≤ j ∧ j < m.length then bs[j - off]?.getD (m.get j) else m.get j := by
  induction bs generalizing m off with
  | nil => simp [write]
  | cons b bs ih =>
    rw [write, ih, length_set, get_set]
    by_cases hl : j < m.length
    · by_cases h0 : j = off
      · subst h0
        rw [if_neg (by omega), if_pos ⟨rfl, hl⟩, if_pos ⟨Nat.le_refl _, hl⟩, Nat.sub_self]
        rfl
      · by_cases h : off ≤ j
        · have e : j - off = (j - (off + 1)) + 1 := by omega
          have h' : off + 1 ≤ j := by omega
          simp only [h, h', h0, hl, and_self, if_true, e, List.getElem?_cons_succ, false_and, if_false]
        · have h' : ¬ off + 1 ≤ j := by omega
          simp [h, h', h0]
    · simp [hl]

/-- A byte outside the written run is as before. -/
theorem get_write_of_not_mem (m : Memory) {off : Nat} {bs : List UInt8} {j : Nat}
    (h : j < off ∨ off + bs.length ≤ j) : (m.write off bs).get j = m.get j := by
  rw [get_write]
  split
  · rw [List.getElem?_eq_none (by omega)]; rfl
  · rfl

@[simp] theorem length_window (m : Memory) (off len : Nat) : (m.window off len).length = len := by
  simp [window]

theorem getElem_window (m : Memory) (off len k : Nat) (h : k < (m.window off len).length) :
    (m.window off len)[k] = m.get (off + k) := by
  simp [window]

/-- Two windows are equal when they agree byte by byte. -/
theorem window_congr {m n : Memory} {off off' len : Nat}
    (h : ∀ k, k < len → m.get (off + k) = n.get (off' + k)) :
    m.window off len = n.window off' len := by
  unfold window
  exact List.map_congr_left fun k hk => h k (by simpa using hk)

/-- A write is read back. -/
theorem window_write_self (m : Memory) (off : Nat) (bs : List UInt8)
    (h : off + bs.length ≤ m.length) : (m.write off bs).window off bs.length = bs := by
  apply List.ext_getElem
  · simp
  · intro k hk hk'
    rw [getElem_window, get_write, if_pos ⟨by omega, by omega⟩, Nat.add_sub_cancel_left,
      List.getElem?_eq_getElem hk']
    rfl

/-- A write elsewhere leaves a window as it was. -/
theorem window_write_of_disjoint (m : Memory) {off off' len : Nat} {bs : List UInt8}
    (h : off + bs.length ≤ off' ∨ off' + len ≤ off) :
    (m.write off bs).window off' len = m.window off' len := by
  refine window_congr fun k hk => ?_
  exact get_write_of_not_mem m (by omega)

end Memory

end TypedHeap
