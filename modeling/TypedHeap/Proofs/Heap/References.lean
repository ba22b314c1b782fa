import TypedHeap.Proofs.Heap.Steps

/-!
# References between objects

Which words of a payload are references follows from the type of the object, from its length if it is a
simple vector, and from the arrays that use it if it is a buffer.

* `Heap.RefSlot`: the word at an offset of a payload is a reference, or holds none.
* `Heap.Refers`: an object refers to another one.
* `Rewrites.refSlot_of`, `Rewrites.refers_of`: who referred to whom before payloads changed.
* `Heap.Blank`: an array without a buffer has no owner either.

Main results: `refers_put`, `refers_store`, `Sound.refers_live`, `Trail.blank`.
-/

namespace TypedHeap.Heap

open ArrayObject

variable {h h' : Heap} {a p v x y : Value} {f : ArrayInfo} {t elem : TypeRef} {d : Descriptor} {l : Layout}
  {e : FieldLayout} {i j k n rank : Nat} {S : Value → Nat → Prop} {bs : List UInt8}

/-! ## References -/

/-- The word at an offset of a payload is a reference, or zero where there is none. -/
inductive RefSlot (h : Heap) (p : Value) : Nat → Prop
  /-- A field that is not stored inline. -/
  | field {t : TypeRef} {l : Layout} {e : FieldLayout} (type : h.typeOf p = .ok t)
      (layout : h.registry.layouts.find? t = some l) (field : e ∈ l.fields)
      (outside : e.isInline = false) : RefSlot h p e.offset
  /-- The buffer of an array. -/
  | data {elem : TypeRef} {rank : Nat} (type : h.ArrayType p elem rank) : RefSlot h p bufferWord
  /-- The owner of the buffer. -/
  | owner {elem : TypeRef} {rank : Nat} (type : h.ArrayType p elem rank) : RefSlot h p (ownerOffset rank)
  /-- An element of a simple vector. -/
  | item {i : Nat} (type : h.typeOf p = .ok Builtin.simpleVector) (index : i < h.word p 0) :
      RefSlot h p (refSize * (i + 1))
  /-- An element of an array that uses the buffer. -/
  | element {a : Value} {f : ArrayInfo} {i : Nat} (array : h.IsArray a f) (buffer : f.buffer = p)
      (storage : f.flags.storage = .references) (index : i < f.capacity) :
      RefSlot h p (refSize * (i + 1))

/-- An object refers to a value. -/
def Refers (h : Heap) (p x : Value) : Prop := ∃ k, h.RefSlot p k ∧ h.slot p k = some x

/-- A slot for a reference lies inside its object. -/
theorem RefSlot.end_le (hslot : h.RefSlot p k) (hs : h.Sound) : ∃ n, h.size? p = some n ∧ k + 8 ≤ n := by
  cases hslot with
  | field type layout field outside =>
    have hend := hs.registry.layouts.end_le layout field
    rw [hs.registry.layouts.size_reference layout field outside] at hend
    exact ⟨_, hs.size_record type layout field, hend⟩
  | data type => exact ⟨_, hs.size_array type, by simp only [bufferWord, ownerOffset, refSize]; omega⟩
  | owner type => exact ⟨_, hs.size_array type, Nat.le_refl _⟩
  | item type index =>
    obtain ⟨n, hn, hle⟩ := hs.size_vector type
    exact ⟨n, hn, by rw [refSize] at hle ⊢; omega⟩
  | @element a f i array buffer storage index =>
    subst buffer
    have hb := (hs.arrays array).body
    have hend := hb.slot_end index
    rw [ArrayInfo.slotOffset, hb.slotSize_references storage] at hend
    exact ⟨_, hs.size_buffer hb.buffer, by rw [refSize]; omega⟩

theorem Refers.live (href : h.Refers p x) (hs : h.Sound) : h.Live p := by
  obtain ⟨k, hslot, -⟩ := href
  obtain ⟨n, hn, -⟩ := hslot.end_le hs
  exact ⟨n, hn⟩

/-- The type of an object tells what its slots are. -/
theorem RefSlot.cases_of_type (hslot : h.RefSlot p k) (hs : h.Sound) (ht : h.typeOf p = .ok t)
    (hd : h.types.descriptor t = .ok d) :
    (∃ l e, h.registry.layouts.find? t = some l ∧ e ∈ l.fields ∧ e.isInline = false ∧ k = e.offset) ∨
      d.kind = .array ∧ (k = bufferWord ∨ ∃ elem rank, h.ArrayType p elem rank ∧ k = ownerOffset rank) ∨
      d.kind = .simpleVector ∧ (∃ i, i < h.word p 0 ∧ k = refSize * (i + 1)) ∨
      d.kind = .buffer ∧ ∃ a f i, h.IsArray a f ∧ f.buffer = p ∧ f.flags.storage = .references ∧
        i < f.capacity ∧ k = refSize * (i + 1) := by
  have harray {elem : TypeRef} {rank : Nat} (type : h.ArrayType p elem rank) : d.kind = .array := by
    obtain ⟨t', d', n, ht', hd', hkind, -⟩ := type
    rw [ht] at ht'
    cases ht'
    rw [hd] at hd'
    cases hd'
    exact hkind
  cases hslot with
  | field type layout field outside =>
    rw [ht] at type
    cases type
    exact .inl ⟨_, _, layout, field, outside, rfl⟩
  | data type => exact .inr (.inl ⟨harray type, .inl rfl⟩)
  | owner type => exact .inr (.inl ⟨harray type, .inr ⟨_, _, type, rfl⟩⟩)
  | item type index =>
    rw [ht] at type
    cases type
    rw [hs.descriptor_simpleVector] at hd
    cases hd
    exact .inr (.inr (.inl ⟨rfl, _, index, rfl⟩))
  | @element a f i array buffer storage index =>
    have hbuffer := (hs.arrays array).body.buffer
    rw [buffer, ht] at hbuffer
    cases hbuffer
    rw [hs.descriptor_buffer] at hd
    cases hd
    exact .inr (.inr (.inr ⟨rfl, a, f, i, array, buffer, storage, index, rfl⟩))

/-- The slots of an object with fields are those of the fields that are not stored inline. -/
theorem RefSlot.field_of (hslot : h.RefSlot p k) (hs : h.Sound) (ht : h.typeOf p = .ok t)
    (hl : h.registry.layouts.find? t = some l) (hsome : l.isBits = true ∨ ∃ e, e ∈ l.fields) :
    ∃ e ∈ l.fields, e.isInline = false ∧ k = e.offset := by
  obtain ⟨d, hd, hdesc⟩ := hs.registry.layouts.describes hl
  have hkind := Sound.kind_of_contents hdesc hsome
  rcases hslot.cases_of_type hs ht hd with ⟨l', e, hl', he, hout, rfl⟩ | ⟨harray, -⟩ | ⟨hvector, -⟩ |
    ⟨hbuffer, -⟩
  · rw [hl] at hl'
    cases hl'
    exact ⟨e, he, hout, rfl⟩
  · exact absurd harray hkind.2
  · rw [hvector] at hkind
    cases hkind.1
  · rw [hbuffer] at hkind
    cases hkind.1

/-- The slots of a buffer are those of the arrays that use it. -/
theorem RefSlot.element_of (hslot : h.RefSlot p k) (hs : h.Sound) (ht : h.typeOf p = .ok Builtin.buffer) :
    ∃ a f i, h.IsArray a f ∧ f.buffer = p ∧ f.flags.storage = .references ∧ i < f.capacity ∧
      k = refSize * (i + 1) := by
  rcases hslot.cases_of_type hs ht hs.descriptor_buffer with ⟨l, e, hl, he, -⟩ | ⟨hkind, -⟩ | ⟨hkind, -⟩ |
    ⟨-, helement⟩
  · obtain ⟨d, hd, hdesc⟩ := hs.registry.layouts.describes hl
    rw [show h.registry.table.descriptor Builtin.buffer = _ from hs.descriptor_buffer] at hd
    cases hd
    cases (Sound.kind_of_field hdesc he).1
  · cases hkind
  · cases hkind
  · exact helement

/-- Whoever uses the buffer of an array stores its elements as the array does. -/
theorem RefSlot.element_of_isArray (hslot : h.RefSlot f.buffer k) (hs : h.Sound) (ha : h.IsArray a f) :
    f.flags.storage = .references ∧ ∃ i, i < f.capacity ∧ k = refSize * (i + 1) := by
  obtain ⟨b, g, i, hb, hbuffer, hstorage, hi, rfl⟩ := hslot.element_of hs (hs.arrays ha).body.buffer
  rcases hs.sharing ha hb hbuffer with rfl | hshares
  · cases ha.unique hb
    exact ⟨hstorage, i, hi, rfl⟩
  · rw [hshares.body.storage] at hstorage
    rw [hshares.body.capacity] at hi
    exact ⟨hstorage, i, hi, rfl⟩

/-- The slots of an array are the words for its buffer and for the owner. -/
theorem RefSlot.word_of (hslot : h.RefSlot p k) (hs : h.Sound) (htype : h.ArrayType p elem rank) :
    k = bufferWord ∨ k = ownerOffset rank := by
  have ⟨t, d, _, ht, hd, hkind, _⟩ := htype
  rcases hslot.cases_of_type hs ht hd with ⟨l, e, hl, he, -⟩ | ⟨-, rfl | ⟨elem', rank', htype', rfl⟩⟩ |
    ⟨hother, -⟩ | ⟨hother, -⟩
  · obtain ⟨d', hd', hdesc⟩ := hs.registry.layouts.describes hl
    rw [show h.registry.table.descriptor t = .ok d from hd] at hd'
    cases hd'
    exact absurd hkind (Sound.kind_of_field hdesc he).2
  · exact .inl rfl
  · exact .inr (by rw [(htype.unique htype').2])
  · rw [hkind] at hother
    cases hother
  · rw [hkind] at hother
    cases hother

/-- The slots of a simple vector. -/
theorem RefSlot.item_of (hslot : h.RefSlot p k) (hs : h.Sound)
    (ht : h.typeOf p = .ok Builtin.simpleVector) : ∃ i, i < h.word p 0 ∧ k = refSize * (i + 1) := by
  rcases hslot.cases_of_type hs ht hs.descriptor_simpleVector with ⟨l, e, hl, he, -⟩ | ⟨hkind, -⟩ |
    ⟨-, hitem⟩ | ⟨hkind, -⟩
  · obtain ⟨d, hd, hdesc⟩ := hs.registry.layouts.describes hl
    rw [show h.registry.table.descriptor Builtin.simpleVector = _ from hs.descriptor_simpleVector] at hd
    cases hd
    cases (Sound.kind_of_field hdesc he).1
  · cases hkind
  · exact hitem
  · cases hkind

/-! ## Looking back -/

/-- What was a slot before, if no simple vector got longer and no array got another buffer. -/
theorem Rewrites.refSlot_of (hr : Rewrites S h h')
    (hitem : h.typeOf p = .ok Builtin.simpleVector → h'.word p 0 ≤ h.word p 0)
    (helement : ∀ {a f}, h'.IsArray a f → f.buffer = p → f.flags.storage = .references →
      ∃ b g, h.IsArray b g ∧ g.buffer = p ∧ g.flags.storage = .references ∧ g.capacity = f.capacity)
    (hslot : h'.RefSlot p k) : h.RefSlot p k := by
  cases hslot with
  | field type layout field outside =>
    rw [hr.registry] at layout
    exact .field (hr.typeOf_iff.1 type) layout field outside
  | data type => exact .data (hr.arrayType_iff.1 type)
  | owner type => exact .owner (hr.arrayType_iff.1 type)
  | item type index =>
    have type := hr.typeOf_iff.1 type
    exact .item type (Nat.lt_of_lt_of_le index (hitem type))
  | element array buffer storage index =>
    obtain ⟨b, g, hb, hbuffer, hstorage, hcapacity⟩ := helement array buffer storage
    rw [← hcapacity] at index
    exact .element hb hbuffer hstorage index

/-- Changes of an object that is no array change no slot, except that a simple vector may get shorter. -/
theorem Rewrites.refSlot_of_plain (hr : Rewrites (fun w _ => w = v) h h') (hs : h.Sound)
    (ht : h.typeOf v = .ok t) (hd : h.types.descriptor t = .ok d) (hkind : d.kind ≠ .array)
    (hlength : t = Builtin.simpleVector → h'.word v 0 ≤ h.word v 0) (hslot : h'.RefSlot p k) :
    h.RefSlot p k := by
  refine hr.refSlot_of (fun hp => ?_) (fun {a f} ha hbuffer hstorage => ?_) hslot
  · by_cases hpv : p = v
    · subst hpv
      rw [ht] at hp
      cases hp
      exact hlength rfl
    · obtain ⟨n, hn, hle⟩ := hs.size_vector hp
      exact Nat.le_of_eq (hr.word_eq hn (by rw [refSize] at hle; omega) fun _ _ _ => hpv)
  · obtain ⟨rank, hta⟩ := ha.type
    have hne : a ≠ v := Sound.ne_of_kind (hr.arrayType_iff.1 hta) ht hd hkind
    exact ⟨a, f, hr.isArray_of hs ha fun _ => hne, hbuffer, hstorage, rfl⟩

/-- Changes of a simple vector that gets no longer. -/
theorem Rewrites.refSlot_of_vector (hr : Rewrites (fun w _ => w = v) h h') (hs : h.Sound)
    (ht : h.typeOf v = .ok Builtin.simpleVector) (hle : h'.word v 0 ≤ h.word v 0) (hslot : h'.RefSlot p k) :
    h.RefSlot p k :=
  hr.refSlot_of_plain hs ht hs.descriptor_simpleVector (by decide) (fun _ => hle) hslot

/-- Whoever refers to somebody did so before, or has been written to. -/
theorem Rewrites.refers_of (hr : Rewrites S h h') (hs : h.Sound)
    (hback : ∀ k, h'.RefSlot p k → h.RefSlot p k) (href : h'.Refers p x) :
    h.Refers p x ∨ ∃ k, h.RefSlot p k ∧ h'.slot p k = some x ∧ ∃ j, k ≤ j ∧ j < k + 8 ∧ S p j := by
  obtain ⟨k, hslot, hx⟩ := href
  have hslot := hback k hslot
  obtain ⟨n, hn, hend⟩ := hslot.end_le hs
  by_cases htouched : ∃ j, k ≤ j ∧ j < k + 8 ∧ S p j
  · exact .inr ⟨k, hslot, hx, htouched⟩
  · rw [hr.keeps.slot_eq hn hend fun j hj hj' hS => htouched ⟨j, hj, hj', hS⟩] at hx
    exact .inl ⟨k, hslot, hx⟩

/-- Flags and queues are no references. -/
theorem Rewrites.refers_of_nothing (hr : Rewrites (fun _ _ => False) h h') (hs : h.Sound)
    (href : h'.Refers p x) : h.Refers p x := by
  have hback (k : Nat) (hslot : h'.RefSlot p k) : h.RefSlot p k := by
    refine hr.refSlot_of (fun hp => ?_) (fun {a f} ha hbuffer hstorage => ?_) hslot
    · obtain ⟨n, hn, hle⟩ := hs.size_vector hp
      exact Nat.le_of_eq (hr.word_eq hn (by rw [refSize] at hle; omega) fun _ _ _ => id)
    · exact ⟨a, f, hr.isArray_of hs ha fun _ => id, hbuffer, hstorage, rfl⟩
  rcases hr.refers_of hs hback href with hbefore | ⟨k, -, -, j, -, -, hfalse⟩
  · exact hbefore
  · exact hfalse.elim

/-- Changes of an object without slots change no reference. -/
theorem Rewrites.refers_of_slotless (hr : Rewrites (fun w _ => w = v) h h') (hs : h.Sound)
    (ht : h.typeOf v = .ok t) (hd : h.types.descriptor t = .ok d) (harray : d.kind ≠ .array)
    (hvector : d.kind ≠ .simpleVector) (hslots : ∀ k, ¬h.RefSlot v k) (href : h'.Refers p x) :
    h.Refers p x := by
  have hlength (heq : t = Builtin.simpleVector) : h'.word v 0 ≤ h.word v 0 := by
    rw [heq, hs.descriptor_simpleVector] at hd
    cases hd
    exact absurd rfl hvector
  rcases hr.refers_of hs (fun _ => hr.refSlot_of_plain hs ht hd harray hlength) href with
    hbefore | ⟨k, hslot, -, j, -, -, hv⟩
  · exact hbefore
  · rw [hv] at hslot
    exact absurd hslot (hslots k)

/-- Bytes of a payload change that are no slots, or slots are emptied. -/
theorem refers_put (hs : h.Sound) (hn : h.size? v = some n) (hend : k + bs.length ≤ n)
    (hback : ∀ j, (h.put v k bs).RefSlot p j → h.RefSlot p j)
    (hslots : ∀ j, h.RefSlot v j → (j + 8 ≤ k ∨ k + bs.length ≤ j) ∨ (h.put v k bs).slot v j = none)
    (href : (h.put v k bs).Refers p x) : h.Refers p x := by
  have hr : Rewrites (fun w _ => w = v) h (h.put v k bs) := .put hs.arena hn hend fun _ _ _ => rfl
  rcases hr.refers_of hs hback href with hbefore | ⟨j, hslot, hx, _, -, -, rfl⟩
  · exact hbefore
  · rcases hslots j hslot with hsep | hnone
    · rw [slot, word_put_outside hsep] at hx
      exact ⟨j, hslot, hx⟩
    · rw [hnone] at hx
      cases hx

/-- A reference is stored in a slot. -/
theorem refers_store (hs : h.Sound) (hn : h.size? v = some n) (hend : k + 8 ≤ n)
    (hback : ∀ j, ((h.putWord v k x.offset).guarded v x).RefSlot p j → h.RefSlot p j)
    (hslots : ∀ j, h.RefSlot v j → j = k ∨ j + 8 ≤ k ∨ k + 8 ≤ j)
    (href : ((h.putWord v k x.offset).guarded v x).Refers p y) : h.Refers p y ∨ p = v ∧ y = x := by
  have hput : Rewrites (fun w _ => w = v) h (h.putWord v k x.offset) :=
    .putWord hs.arena hn hend fun _ _ _ => rfl
  have hguarded : Rewrites (fun _ _ => False) (h.putWord v k x.offset) _ :=
    .guarded (hput.arena hs.arena) v x
  have hslot_eq {j : Nat} (hj : j + 8 ≤ n) :
      ((h.putWord v k x.offset).guarded v x).slot v j = (h.putWord v k x.offset).slot v j :=
    hguarded.keeps.slot_eq ((hput.size?_eq v).trans hn) hj fun _ _ _ => id
  have hr := hput.trans (hguarded.mono fun _ _ => False.elim)
  rcases hr.refers_of hs hback href with hbefore | ⟨j, hslot, hy, _, -, -, rfl⟩
  · exact .inl hbefore
  · obtain ⟨m, hm, hj⟩ := hslot.end_le hs
    rw [hn] at hm
    cases hm
    rw [hslot_eq hj] at hy
    rcases hslots j hslot with rfl | hsep
    · have hreach := Nat.le_trans (hs.end_le_top hn) hs.arena.reach
      have hx : (h.putWord p j x.offset).slot p j = some x := slot_putWord (x := some x) (by omega)
      rw [hx] at hy
      cases hy
      exact .inr ⟨rfl, rfl⟩
    · rw [slot, word_putWord_outside hsep] at hy
      exact .inl ⟨j, hslot, hy⟩

/-! ## References that lead somewhere -/

/-- An array without a buffer has no owner. -/
def Blank (h : Heap) : Prop :=
  ∀ a elem rank, h.ArrayType a elem rank → h.slot a bufferWord = none → h.slot a (ownerOffset rank) = none

/-- An array that says which buffer it has. -/
theorem exists_isArray (ht : h.ArrayType a elem rank) (hx : h.slot a bufferWord = some x) :
    ∃ f, h.IsArray a f ∧ f.elem = elem ∧ f.buffer = x :=
  ⟨⟨elem, ArrayFlags.ofWord (h.word a flagsWord), h.word a lengthWord, h.word a capacityWord, x⟩,
    ⟨⟨rank, ht⟩, hx, rfl, rfl, rfl⟩, rfl, rfl⟩

/-- References lead to objects, if those in simple vectors do. -/
theorem Sound.refers_live (hs : h.Sound) (hblank : h.Blank)
    (hvectors : ∀ v i x, h.typeOf v = .ok Builtin.simpleVector → i < h.word v 0 →
      h.slot v (refSize * (i + 1)) = some x → h.Live x) (href : h.Refers p x) : h.Live x := by
  have hfits {v : Value} {k : Nat} {t : TypeRef} (hf : h.Fits v k t) (hx : h.slot v k = some x) : h.Live x := by
    obtain ⟨s, hts, -⟩ := isa_eq_ok.1 (hf x hx)
    exact live_of_typeOf hts
  have hdata {elem : TypeRef} {rank : Nat} (ht : h.ArrayType p elem rank) (hx : h.slot p bufferWord = some x) :
      h.Live x := by
    obtain ⟨f, ha, -, rfl⟩ := exists_isArray ht hx
    exact live_of_typeOf (hs.arrays ha).body.buffer
  obtain ⟨k, hslot, hx⟩ := href
  cases hslot with
  | field type layout field outside => exact hfits (hs.fields type layout field outside) hx
  | data type => exact hdata type hx
  | @owner elem rank type =>
    cases hbuffer : h.slot p bufferWord with
    | none =>
      rw [hblank _ _ _ type hbuffer] at hx
      cases hx
    | some b =>
      obtain ⟨f, ha, rfl, rfl⟩ := exists_isArray type hbuffer
      have howner := (hs.arrays ha).owner
      rw [((hs.arrays ha).type.unique type).2] at hx
      rw [howner] at hx
      cases hx
      exact live_of_typeOf (hs.arrays ha).body.buffer
  | item type index => exact hvectors p _ x type index hx
  | @element a f i array buffer storage index =>
    subst buffer
    have hb := (hs.arrays array).body
    have hoffset : refSize * (i + 1) = refSize + f.slotOffset i := by
      rw [ArrayInfo.slotOffset, hb.slotSize_references storage, refSize]
      omega
    rw [hoffset] at hx
    rcases Nat.lt_or_ge i f.length with hi | hi
    · exact hfits (hb.fits storage i hi) hx
    · -- Behind the last element there is nothing.
      have hnone : h.slot f.buffer (refSize + f.slotOffset i) = none := by
        refine slot_eq_none_of_zero (word_eq_zero fun j hj hj' => ?_)
        obtain ⟨m, rfl⟩ := Nat.exists_eq_add_of_le (Nat.le_trans (Nat.le_add_right refSize _) hj)
        have h1 := f.slotOffset_mono hi
        have h2 := f.slot_end_le index
        rw [hb.slotSize_references storage] at h2
        exact hb.vacant m (.inl ⟨by omega, by omega⟩)
      rw [hnone] at hx
      cases hx

theorem blank_fresh (config : HeapConfig) (barrier : Barrier) : (fresh config barrier).Blank := by
  intro a elem rank ht
  obtain ⟨n, hn⟩ := ht.live
  cases hn

/-- An array that nobody writes to has no owner if it has no buffer. -/
theorem Keeps.blank_of (hk : Keeps S h h') (hs : h.Sound) (hblank : h.Blank) (ht : h.ArrayType a elem rank)
    (hS : ∀ j, ¬S a j) (hnone : h'.slot a bufferWord = none) : h'.slot a (ownerOffset rank) = none := by
  have hsize := hs.size_array ht
  have hfirst : h'.slot a bufferWord = h.slot a bufferWord :=
    hk.slot_eq hsize (by simp only [bufferWord, ownerOffset, refSize]; omega) fun j _ _ => hS j
  have howner : h'.slot a (ownerOffset rank) = h.slot a (ownerOffset rank) :=
    hk.slot_eq hsize (Nat.le_refl _) fun j _ _ => hS j
  rw [hfirst] at hnone
  rw [howner]
  exact hblank _ _ _ ht hnone

theorem Step.blank (step : Step S h h') (hs : h.Sound) (hblank : h.Blank) : h'.Blank := by
  intro a elem rank ht hnone
  have he := (step.keeps hs).toExtends
  by_cases hlive : h.Live a
  · have ht₀ := hs.arrayType_of_live he hlive ht
    cases step.arrayType hs ht₀ with
    | kept keeps => exact keeps.blank_of hs hblank ht₀ (fun _ hne => hne rfl) hnone
    | marked _ after =>
      rw [after.buffer] at hnone
      cases hnone
    | written _ after =>
      rw [after.buffer] at hnone
      cases hnone
  · have hlive' := ht.live
    rcases step.effect hs with hl | ⟨v, t, n, hadded⟩ | hw
    · obtain ⟨m, hm⟩ := hlive'
      rw [hl.size?_eq] at hm
      exact absurd ⟨m, hm⟩ hlive
    · obtain ⟨m, hm⟩ := hlive'
      rw [hadded.size?] at hm
      by_cases hav : a = v
      · subst hav
        refine slot_eq_none_of_zero (word_eq_zero fun j hj _ => hadded.zero j ?_)
        simp only [ownerOffset, refSize] at hj ⊢
        omega
      · rw [if_neg hav] at hm
        exact absurd ⟨m, hm⟩ hlive
    · exact absurd (hw.live_iff.1 hlive') hlive

theorem Move.blank (move : Move S h h') (hs : h.Sound) (hblank : h.Blank) : h'.Blank := by
  cases move with
  | step step => exact step.blank hs hblank
  | flags rewrites =>
    intro a elem rank ht hnone
    exact rewrites.keeps.blank_of hs hblank (rewrites.arrayType_iff.1 ht) (fun _ => id) hnone

/-- No operation gives an owner to an array without a buffer. -/
theorem Trail.blank (trail : Trail S h h') (hs : h.Sound) (hblank : h.Blank) : h'.Blank :=
  trail.preserves hs Move.blank hblank

end TypedHeap.Heap
