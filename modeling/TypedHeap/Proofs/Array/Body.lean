import TypedHeap.Array.Element
import TypedHeap.Proofs.Array.Counting
import TypedHeap.Proofs.Array.Storage

/-!
# Arrays and their buffers

An array object is a handful of words that describe a buffer. What is in the buffer is judged by the
description alone, so arrays that share a buffer and describe it alike are right or wrong together.

* `Heap.Fits`: a slot holds nothing, or a reference to an object of a type.
* `Heap.IsArray`: an object is an array, and its words say so and so.
* `ArrayInfo.SameBody`: two descriptions of one buffer that differ at most in the dimensions.
* `ArrayInfo.Shares`: and both say that the buffer is shared.
* `Heap.BodySound`, `Heap.ArraySound`: a buffer is as a description says; an array is.
* `Heap.SameSlot`: two slots that hold the same.

Main results: `isArray_of_info`, `info_of_isArray`, `BodySound.slot_end`.
-/

namespace TypedHeap

/-! ## Places in a buffer -/

namespace ArrayInfo

variable {f g : ArrayInfo} {i j n : Nat}

theorem slotOffset_succ (f : ArrayInfo) (i : Nat) :
    f.slotOffset (i + 1) = f.slotOffset i + f.flags.slotSize :=
  Nat.succ_mul i f.flags.slotSize

theorem slotOffset_mono (f : ArrayInfo) (h : i ≤ n) : f.slotOffset i ≤ f.slotOffset n :=
  Nat.mul_le_mul_right _ h

/-- A slot ends where a later one begins, or before. -/
theorem slot_end_le (f : ArrayInfo) (h : i < n) :
    f.slotOffset i + f.flags.slotSize ≤ f.slotOffset n := by
  rw [← slotOffset_succ]
  exact slotOffset_mono f h

/-- Bytes of a buffer that belong to slots beyond the length. -/
def Vacant (f : ArrayInfo) (j : Nat) : Prop :=
  f.slotOffset f.length ≤ j ∧ j < f.slotOffset f.capacity ∨
    f.flags.storage = .selected ∧ f.selectorOffset f.length ≤ j ∧ j < f.selectorOffset f.capacity

/-- Bytes of a buffer that belong to the slots from `lo` up to `hi`. -/
def Between (f : ArrayInfo) (lo hi j : Nat) : Prop :=
  f.slotOffset lo ≤ j ∧ j < f.slotOffset hi ∨
    f.flags.storage = .selected ∧ f.selectorOffset lo ≤ j ∧ j < f.selectorOffset hi

theorem slotOffset_le_selectorOffset (f : ArrayInfo) (h : i ≤ f.capacity) :
    f.slotOffset i ≤ f.selectorOffset j :=
  Nat.le_trans (slotOffset_mono f h) (Nat.le_add_right _ _)

/-- No byte of a slot in use is vacant. -/
theorem not_vacant_of_slot (hle : f.length ≤ f.capacity) (hi : i < f.length)
    (hj : j < f.slotOffset i + f.flags.slotSize) : ¬f.Vacant j := by
  have h1 := f.slot_end_le hi
  have h2 : f.slotOffset f.length ≤ f.selectorOffset f.length := slotOffset_le_selectorOffset f hle
  rintro (⟨hlo, -⟩ | ⟨-, hlo, -⟩)
  · omega
  · omega

/-- No selector of a slot in use is vacant. -/
theorem not_vacant_selector (hi : i < f.length) : ¬f.Vacant (f.selectorOffset i) := by
  have h1 : f.slotOffset f.capacity ≤ f.selectorOffset i :=
    slotOffset_le_selectorOffset f (Nat.le_refl _)
  rintro (⟨-, hhi⟩ | ⟨-, hlo, -⟩)
  · omega
  · simp only [selectorOffset] at hlo
    omega

theorem Between.mono {lo hi lo' hi' : Nat} (h : f.Between lo hi j) (hlo : lo' ≤ lo) (hhi : hi ≤ hi') :
    f.Between lo' hi' j := by
  have h1 := f.slotOffset_mono hlo
  have h2 := f.slotOffset_mono hhi
  rcases h with ⟨h3, h4⟩ | ⟨hsel, h3, h4⟩
  · exact .inl ⟨by omega, by omega⟩
  · simp only [selectorOffset] at h3 h4
    exact .inr ⟨hsel, by simp only [selectorOffset]; omega, by simp only [selectorOffset]; omega⟩

theorem Between.split {lo hi : Nat} (h : f.Between lo hi j) (m : Nat) : f.Between lo m j ∨ f.Between m hi j := by
  rcases h with ⟨hlo, hhi⟩ | ⟨hsel, hlo, hhi⟩
  · exact (Nat.lt_or_ge j (f.slotOffset m)).imp (fun hlt => .inl ⟨hlo, hlt⟩) fun hge => .inl ⟨hge, hhi⟩
  · exact (Nat.lt_or_ge j (f.selectorOffset m)).imp (fun hlt => .inr ⟨hsel, hlo, hlt⟩)
      fun hge => .inr ⟨hsel, hge, hhi⟩

/-- A byte of a slot is no byte of slots before it or behind it. -/
theorem Between.bounds {lo hi : Nat} (h : f.Between i (i + 1) j) (h' : f.Between lo hi j)
    (hi' : i < f.capacity) (hle : hi ≤ f.capacity) : lo ≤ i ∧ i < hi := by
  have hslot : f.slotOffset (i + 1) ≤ f.slotOffset f.capacity := f.slotOffset_mono hi'
  have hslots : f.slotOffset hi ≤ f.slotOffset f.capacity := f.slotOffset_mono hle
  have hbehind (k : Nat) : f.slotOffset f.capacity ≤ f.selectorOffset k :=
    slotOffset_le_selectorOffset f (Nat.le_refl _)
  rcases h with ⟨h1, h2⟩ | ⟨-, h1, h2⟩ <;> rcases h' with ⟨h3, h4⟩ | ⟨-, h3, h4⟩
  · constructor
    · by_contra hlt
      have : f.slotOffset (i + 1) ≤ f.slotOffset lo := f.slotOffset_mono (Nat.not_le.1 hlt)
      omega
    · by_contra hlt
      have := f.slotOffset_mono (Nat.not_lt.1 hlt)
      omega
  · have := hbehind lo
    omega
  · have := hbehind i
    omega
  · simp only [selectorOffset] at h1 h2 h3 h4
    omega

/-- Two descriptions of one buffer that differ at most in the dimensions and in being shared. -/
structure SameBody (f g : ArrayInfo) : Prop where
  elem : g.elem = f.elem
  storage : g.flags.storage = f.flags.storage
  slotSize : g.flags.slotSize = f.flags.slotSize
  length : g.length = f.length
  capacity : g.capacity = f.capacity
  buffer : g.buffer = f.buffer

theorem SameBody.symm (h : f.SameBody g) : g.SameBody f :=
  ⟨h.elem.symm, h.storage.symm, h.slotSize.symm, h.length.symm, h.capacity.symm, h.buffer.symm⟩

theorem SameBody.trans {k : ArrayInfo} (h : f.SameBody g) (h' : g.SameBody k) : f.SameBody k :=
  ⟨h'.elem.trans h.elem, h'.storage.trans h.storage, h'.slotSize.trans h.slotSize,
    h'.length.trans h.length, h'.capacity.trans h.capacity, h'.buffer.trans h.buffer⟩

/-- Two descriptions of one buffer by arrays that know they share it. -/
structure Shares (f g : ArrayInfo) : Prop where
  left : f.flags.isShared = true
  right : g.flags.isShared = true
  body : f.SameBody g

theorem Shares.symm (h : f.Shares g) : g.Shares f := ⟨h.right, h.left, h.body.symm⟩

theorem SameBody.slotOffset (h : f.SameBody g) (i : Nat) : g.slotOffset i = f.slotOffset i := by
  rw [ArrayInfo.slotOffset, ArrayInfo.slotOffset, h.slotSize]

theorem SameBody.selectorOffset (h : f.SameBody g) (i : Nat) :
    g.selectorOffset i = f.selectorOffset i := by
  rw [ArrayInfo.selectorOffset, ArrayInfo.selectorOffset, h.slotSize, h.capacity]

theorem SameBody.vacant_iff (h : f.SameBody g) : g.Vacant j ↔ f.Vacant j := by
  simp only [Vacant, h.slotOffset, h.selectorOffset, h.length, h.capacity, h.storage]

end ArrayInfo

namespace ArrayObject

variable {storage : ElementStorage} {slotSize capacity n : Nat}

/-- A buffer has room for its slots, and for their selectors behind them. -/
theorem bufferSize_eq_some (h : bufferSize storage slotSize capacity = some n) :
    n = capacity * slotSize + storage.selectorBytes capacity ∧ n ≤ Heap.maxWord := by
  unfold bufferSize inWord at h
  split at h
  · simp only [Option.bind_eq_bind, Option.bind_some] at h
    split at h
    · rename_i hle
      cases h
      exact ⟨rfl, hle⟩
    · cases h
  · cases h

end ArrayObject

/-! ## Arrays -/

namespace Heap

open ArrayObject

variable {h h' : Heap} {a v : Value} {f g : ArrayInfo} {t elem : TypeRef} {i j k n rank : Nat}

/-- A slot of a payload holds nothing, or a reference to an object of the given type. -/
def Fits (h : Heap) (v : Value) (k : Nat) (t : TypeRef) : Prop :=
  ∀ x, h.slot v k = some x → h.isa x t = .ok true

theorem Fits.congr (hfits : h.Fits v k t) (he : h.Extends h') (hslot : h'.slot v k = h.slot v k) :
    h'.Fits v k t := by
  intro x hx
  rw [hslot] at hx
  exact he.isa (hfits x hx)

/-- An empty slot fits any type. -/
theorem fits_of_none (hslot : h.slot v k = none) : h.Fits v k t := by
  intro x hx
  rw [hslot] at hx
  cases hx

/-- An object of an array type with the given element type and number of dimensions. -/
def ArrayType (h : Heap) (a : Value) (elem : TypeRef) (rank : Nat) : Prop :=
  ∃ t d n, h.typeOf a = .ok t ∧ h.types.descriptor t = .ok d ∧ d.kind = .array ∧
    d.params = [.type elem, .int n] ∧ n.toInt = rank

theorem ArrayType.extends (ht : h.ArrayType a elem rank) (he : h.Extends h') :
    h'.ArrayType a elem rank := by
  obtain ⟨t, d, n, ht, hd, hkind, hparams, hn⟩ := ht
  exact ⟨t, d, n, he.typeOf ht, he.descriptor hd, hkind, hparams, hn⟩

theorem ArrayType.live (ht : h.ArrayType a elem rank) : h.Live a := by
  obtain ⟨t, d, n, ht, -⟩ := ht
  exact live_of_typeOf ht

/-- An object has one element type and one number of dimensions. -/
theorem ArrayType.unique {elem' : TypeRef} {rank' : Nat} (ht : h.ArrayType a elem rank)
    (ht' : h.ArrayType a elem' rank') : elem' = elem ∧ rank' = rank := by
  obtain ⟨t, d, n, ht, hd, -, hparams, hn⟩ := ht
  obtain ⟨t', d', n', ht', hd', -, hparams', hn'⟩ := ht'
  rw [ht] at ht'
  cases ht'
  rw [hd] at hd'
  cases hd'
  rw [hparams] at hparams'
  cases hparams'
  exact ⟨rfl, by omega⟩

/-- An object is an array with a buffer, and its words say what `f` says. -/
structure IsArray (h : Heap) (a : Value) (f : ArrayInfo) : Prop where
  type : ∃ rank, h.ArrayType a f.elem rank
  buffer : h.slot a bufferWord = some f.buffer
  length : h.word a lengthWord = f.length
  flags : ArrayFlags.ofWord (h.word a flagsWord) = f.flags
  capacity : h.word a capacityWord = f.capacity

theorem IsArray.live (ha : h.IsArray a f) : h.Live a := by
  obtain ⟨rank, ht⟩ := ha.type
  exact ht.live

theorem IsArray.unique (hf : h.IsArray a f) (hg : h.IsArray a g) : g = f := by
  obtain ⟨rank, ht⟩ := hf.type
  obtain ⟨rank', ht'⟩ := hg.type
  have hbuffer := hf.buffer.symm.trans hg.buffer
  obtain ⟨elem, flags, length, capacity, buffer⟩ := f
  obtain ⟨elem', flags', length', capacity', buffer'⟩ := g
  simp only [Option.some.injEq] at hbuffer
  simp only [ArrayInfo.mk.injEq]
  exact ⟨(ht.unique ht').1, hg.flags.symm.trans hf.flags, hg.length.symm.trans hf.length,
    hg.capacity.symm.trans hf.capacity, hbuffer.symm⟩

theorem IsArray.congr (ha : h.IsArray a f) (he : h.Extends h')
    (hword : ∀ k, k ≤ capacityWord → h'.word a k = h.word a k) : h'.IsArray a f where
  type := by
    obtain ⟨rank, ht⟩ := ha.type
    exact ⟨rank, ht.extends he⟩
  buffer := by rw [slot, hword _ (by decide)]; exact ha.buffer
  length := by rw [hword _ (by decide)]; exact ha.length
  flags := by rw [hword _ (by decide)]; exact ha.flags
  capacity := by rw [hword _ (by decide)]; exact ha.capacity

/-- What an array says about itself stands in its words. -/
theorem isArray_of_info (hs : h.registry.Sound) (hf : info h a = .ok f) : h.IsArray a f := by
  unfold info at hf
  obtain ⟨d, hd, hf⟩ := bind_eq_ok.1 hf
  obtain ⟨t, ht, hd⟩ := descriptor_eq_ok.1 hd
  split at hf
  · obtain ⟨_, -, hf⟩ := bind_eq_ok.1 hf
    cases hf
  · rename_i hkind
    have hkind := Decidable.not_not.1 hkind
    obtain ⟨elem, n, hparams, hlo, hhi⟩ := hs.types.array hd hkind
    rw [hparams] at hf
    obtain ⟨p, hp, hf⟩ := bind_eq_ok.1 hf
    cases hp
    obtain ⟨word, hword, hf⟩ := bind_eq_ok.1 hf
    obtain ⟨slot, hslot, hf⟩ := bind_eq_ok.1 hf
    split at hf
    · cases hf
    · rename_i buffer
      obtain ⟨length, hlength, hf⟩ := bind_eq_ok.1 hf
      obtain ⟨capacity, hcapacity, hf⟩ := bind_eq_ok.1 hf
      cases hf
      have hrank : n.toInt = (n.toInt.toNat : Int) := (Int.toNat_of_nonneg hlo).symm
      exact ⟨⟨_, t, d, n, ht, hd, hkind, hparams, hrank⟩, (readRef_eq_ok.1 hslot).2,
        (readWord_eq_ok.1 hlength).2, by rw [(readWord_eq_ok.1 hword).2],
        (readWord_eq_ok.1 hcapacity).2⟩

/-- And what stands in the words is what the array says, if they can be read. -/
theorem info_of_isArray (ha : h.IsArray a f) (hend : a.offset + 32 ≤ h.top) : info h a = .ok f := by
  obtain ⟨rank, t, d, n, ht, hd, hkind, hparams, -⟩ := ha.type
  have hread (k : Nat) (hk : k ≤ capacityWord) : h.readWord (a.offset + k) = .ok (h.word a k) :=
    readWord_eq (by rw [capacityWord] at hk; omega)
  have hdesc : h.descriptor a = .ok d := descriptor_eq_ok.2 ⟨t, ht, hd⟩
  have hbuffer : h.readRef (a.offset + bufferWord) = .ok (some f.buffer) := by
    rw [readRef_eq (by rw [bufferWord]; omega), ha.buffer]
  unfold info
  refine bind_eq_ok.2 ⟨d, hdesc, ?_⟩
  rw [if_neg (fun hne => hne hkind), hparams]
  refine bind_eq_ok.2 ⟨.type f.elem, rfl, ?_⟩
  refine bind_eq_ok.2 ⟨_, hread flagsWord (by decide), bind_eq_ok.2 ⟨_, hbuffer, ?_⟩⟩
  refine bind_eq_ok.2 ⟨_, hread lengthWord (by decide), ?_⟩
  refine bind_eq_ok.2 ⟨_, hread capacityWord (by decide), ?_⟩
  rw [ha.flags, ha.length, ha.capacity]
  rfl

/-! ## Soundness -/

/-- A buffer is as a description of it says. -/
structure BodySound (h : Heap) (f : ArrayInfo) : Prop where
  stored : h.registry.Stored f.elem f.flags.storage f.flags.slotSize
  length_le : f.length ≤ f.capacity
  buffer : h.typeOf f.buffer = .ok Builtin.buffer
  /-- The buffer has exactly the bytes that its slots and selectors take. -/
  room : bufferSize f.flags.storage f.flags.slotSize f.capacity = some (h.word f.buffer 0)
  vacant : ∀ j, f.Vacant j → h.byte f.buffer (refSize + j) = 0
  fits : f.flags.storage = .references → ∀ i, i < f.length →
    h.Fits f.buffer (refSize + f.slotOffset i) f.elem
  selectors : f.flags.storage = .selected → ∀ i, i < f.length →
    h.registry.Selector f.elem (h.byte f.buffer (refSize + f.selectorOffset i))

/-- An array is as its words say. -/
structure ArraySound (h : Heap) (a : Value) (f : ArrayInfo) : Prop where
  type : h.ArrayType a f.elem f.flags.ndims
  /-- The dimensions multiply up to the length, and nothing is too large on the way. -/
  count : elementCount ((List.range f.flags.ndims).map fun k => h.word a (dimWord k)) = some f.length
  owner : h.slot a (ownerOffset f.flags.ndims) = some f.buffer
  body : h.BodySound f

namespace BodySound

theorem room_eq (hb : h.BodySound f) :
    h.word f.buffer 0 = f.slotOffset f.capacity + f.flags.storage.selectorBytes f.capacity :=
  (bufferSize_eq_some hb.room).1

/-- Slots below the capacity end inside the buffer. -/
theorem slot_end (hb : h.BodySound f) (hi : i < f.capacity) :
    f.slotOffset i + f.flags.slotSize ≤ h.word f.buffer 0 := by
  have h1 := f.slot_end_le hi
  have h2 := hb.room_eq
  omega

/-- So do selectors. -/
theorem selector_end (hb : h.BodySound f) (hsel : f.flags.storage = .selected)
    (hi : i ≤ f.capacity) : f.selectorOffset i ≤ h.word f.buffer 0 := by
  have h2 := hb.room_eq
  rw [hsel] at h2
  simp only [ElementStorage.selectorBytes] at h2
  simp only [ArrayInfo.selectorOffset]
  simp only [ArrayInfo.slotOffset] at h2
  omega

/-- A run of slots below the capacity ends inside the buffer. -/
theorem slots_end {lo hi : Nat} (hb : h.BodySound f) (hle : lo ≤ hi) (hhi : hi ≤ f.capacity) :
    f.slotOffset lo + (hi - lo) * f.flags.slotSize = f.slotOffset hi ∧
      f.slotOffset hi ≤ h.word f.buffer 0 := by
  have h1 := hb.room_eq
  have h2 := f.slotOffset_mono hhi
  refine ⟨?_, by omega⟩
  rw [ArrayInfo.slotOffset, ArrayInfo.slotOffset, ← Nat.add_mul, Nat.add_sub_cancel' hle]

/-- A slot of references takes a word. -/
theorem slotSize_references (hb : h.BodySound f) (href : f.flags.storage = .references) :
    f.flags.slotSize = 8 := by
  have hstored := hb.stored
  rw [href] at hstored
  exact hstored.slotSize_references

/-- A slot of plain bits is as wide as the bits. -/
theorem flat_bits (hb : h.BodySound f) (hflat : f.flags.storage = .flat) :
    ∃ l, h.registry.layouts.find? f.elem = some l ∧ l.isBits = true ∧ l.size = f.flags.slotSize := by
  have hstored := hb.stored
  rw [hflat] at hstored
  exact hstored.flat_bits

/-- A slot of a union's elements is wide enough for the bits of a member. -/
theorem member_bits {d : Descriptor} (hb : h.BodySound f) (hsel : f.flags.storage = .selected)
    (hd : h.types.descriptor f.elem = .ok d) (ht : t ∈ d.memberTypes) :
    ∃ l, h.registry.layouts.find? t = some l ∧ l.isBits = true ∧ l.size ≤ f.flags.slotSize := by
  have hstored := hb.stored
  rw [hsel] at hstored
  exact hstored.member_le hd ht

theorem member_sized {d : Descriptor} (hb : h.BodySound f) (hsel : f.flags.storage = .selected)
    (hd : h.types.descriptor f.elem = .ok d) (ht : t ∈ d.memberTypes) (hn : h.registry.Sized t n) :
    ∃ l, h.registry.layouts.find? t = some l ∧ l.isBits = true ∧ l.size = n ∧ n ≤ f.flags.slotSize := by
  obtain ⟨l, hl, hbits, hle⟩ := hb.member_bits hsel hd ht
  obtain ⟨l', hl', rfl⟩ := hn
  cases hl.symm.trans hl'
  exact ⟨l, hl, hbits, rfl, hle⟩

/-- Zero stands for the first member. -/
theorem selector_zero (hb : h.BodySound f) (hsel : f.flags.storage = .selected) :
    h.registry.Selector f.elem 0 := by
  have hstored := hb.stored
  rw [hsel] at hstored
  exact hstored.selector_zero

/-- The number of a member fits in its selector. -/
theorem toNat_selector {d : Descriptor} (hb : h.BodySound f) (hsel : f.flags.storage = .selected)
    (hd : h.types.descriptor f.elem = .ok d) (ht : d.memberTypes[k]? = some t) : (UInt8.ofNat k).toNat = k := by
  have hstored := hb.stored
  rw [hsel] at hstored
  exact hstored.toNat_ofNat hd ht

/-- Slots and selectors below the capacity lie in the buffer. -/
theorem between_lt {lo hi : Nat} (hb : h.BodySound f) (hhi : hi ≤ f.capacity) (hj : f.Between lo hi j) :
    j < h.word f.buffer 0 := by
  rcases hj with ⟨-, hj⟩ | ⟨hsel, -, hj⟩
  · have h1 := hb.room_eq
    have h2 := f.slotOffset_mono hhi
    omega
  · exact Nat.lt_of_lt_of_le hj (hb.selector_end hsel hhi)

theorem vacant_lt (hb : h.BodySound f) (hj : f.Vacant j) : j < h.word f.buffer 0 :=
  hb.between_lt (Nat.le_refl _) hj

theorem sameBody (hb : h.BodySound f) (hfg : f.SameBody g) : h.BodySound g where
  stored := by rw [hfg.elem, hfg.storage, hfg.slotSize]; exact hb.stored
  length_le := by rw [hfg.length, hfg.capacity]; exact hb.length_le
  buffer := by rw [hfg.buffer]; exact hb.buffer
  room := by rw [hfg.storage, hfg.slotSize, hfg.capacity, hfg.buffer]; exact hb.room
  vacant j hj := by rw [hfg.buffer]; exact hb.vacant j (hfg.vacant_iff.1 hj)
  fits href i hi := by
    rw [hfg.storage] at href
    rw [hfg.length] at hi
    rw [hfg.buffer, hfg.slotOffset, hfg.elem]
    exact hb.fits href i hi
  selectors hsel i hi := by
    rw [hfg.storage] at hsel
    rw [hfg.length] at hi
    rw [hfg.buffer, hfg.selectorOffset, hfg.elem]
    exact hb.selectors hsel i hi

/-- A buffer that nobody writes to stays as it is described. -/
theorem congr (hb : h.BodySound f) (he : h.Extends h')
    (hbyte : ∀ j, j < refSize + h.word f.buffer 0 → h'.byte f.buffer j = h.byte f.buffer j) :
    h'.BodySound f where
  stored := hb.stored.extends he.registry
  length_le := hb.length_le
  buffer := he.typeOf hb.buffer
  room := by
    rw [hb.room, word_congr fun j _ hj => hbyte j ?_]
    rw [refSize]
    omega
  vacant j hj := by
    have := hb.vacant_lt hj
    rw [hbyte _ (by omega), hb.vacant j hj]
  fits href i hi := by
    have hsize := hb.slotSize_references href
    have hend := hb.slot_end (Nat.lt_of_lt_of_le hi hb.length_le)
    refine (hb.fits href i hi).congr he (slot_congr fun j _ hj => hbyte j ?_)
    omega
  selectors hsel i hi := by
    have hend : f.selectorOffset i + 1 ≤ h.word f.buffer 0 :=
      hb.selector_end hsel (Nat.le_trans hi hb.length_le)
    rw [hbyte _ (by omega)]
    exact (hb.selectors hsel i hi).extends he.registry

end BodySound

/-- Slots of two buffers whose elements are stored alike hold the same bytes. -/
structure SameSlot (h : Heap) (f : ArrayInfo) (h' : Heap) (g : ArrayInfo) (i : Nat) : Prop where
  registry : h.registry.Extends h'.registry
  elem : g.elem = f.elem
  storage : g.flags.storage = f.flags.storage
  slotSize : g.flags.slotSize = f.flags.slotSize
  bytes : ∀ j, j < f.flags.slotSize →
    h'.byte g.buffer (refSize + g.slotOffset i + j) = h.byte f.buffer (refSize + f.slotOffset i + j)
  selector : f.flags.storage = .selected →
    h'.byte g.buffer (refSize + g.selectorOffset i) = h.byte f.buffer (refSize + f.selectorOffset i)

theorem SameSlot.trans {h'' : Heap} {e : ArrayInfo} (hsame : SameSlot h f h' g i) (hsame' : SameSlot h' g h'' e i) :
    SameSlot h f h'' e i where
  registry := hsame.registry.trans hsame'.registry
  elem := hsame'.elem.trans hsame.elem
  storage := hsame'.storage.trans hsame.storage
  slotSize := hsame'.slotSize.trans hsame.slotSize
  bytes j hj := (hsame'.bytes j (by rw [hsame.slotSize]; exact hj)).trans (hsame.bytes j hj)
  selector hsel := (hsame'.selector (hsame.storage.trans hsel)).trans (hsame.selector hsel)

/-- A slot that did not change is the same as a copy of it. -/
theorem SameSlot.beside (hcopy : SameSlot h f h' g i) (hself : SameSlot h f h' f i) : SameSlot h' f h' g i where
  registry := .refl _
  elem := hcopy.elem
  storage := hcopy.storage
  slotSize := hcopy.slotSize
  bytes j hj := (hcopy.bytes j hj).trans (hself.bytes j hj).symm
  selector hsel := (hcopy.selector hsel).trans (hself.selector hsel).symm

/-- An array whose words nobody writes to is sound if its buffer is as they say. -/
theorem ArraySound.of_body (hs : h.ArraySound a f) (he : h.Extends h')
    (hword : ∀ k, k ≤ ownerOffset f.flags.ndims → h'.word a k = h.word a k) (hbody : h'.BodySound f) :
    h'.ArraySound a f where
  type := hs.type.extends he
  count := by
    rw [← hs.count]
    congr 1
    refine List.map_congr_left fun k hk => hword _ ?_
    rw [List.mem_range] at hk
    simp only [ownerOffset, dimWord, refSize]
    omega
  owner := by
    rw [slot, hword _ (Nat.le_refl _)]
    exact hs.owner
  body := hbody

end Heap

end TypedHeap
