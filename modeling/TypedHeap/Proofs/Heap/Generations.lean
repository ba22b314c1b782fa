import TypedHeap.Proofs.Heap.References

/-!
# Old objects and young ones

A collector that looks at young objects only has to know which old objects refer to them. The write
barrier tells it, and no step lets a reference from an old object to a young one go unnoticed.

* `Heap.Covered`: old objects that refer to young ones are remembered.
* `Heap.Anchored`: old objects refer to objects only.
* `Step.refers`: where references of old objects come from.

Main results: `Mutates.covered`, `Path.covered_of_live`.
-/

namespace TypedHeap.Heap

open ArrayObject

variable {h h' : Heap} {a p v x y buffer : Value} {f g : ArrayInfo} {t : TypeRef} {d : Descriptor} {l : Layout}
  {e : FieldLayout} {i j k m n lo hi : Nat} {dims : List Nat} {S : Value → Nat → Prop} {bs : List UInt8}

/-- Every old object that refers to a young one is remembered. -/
def Covered (h : Heap) : Prop := ∀ p x, h.Old p → h.Refers p x → h.Young x → h.Remembered p

/-- Old objects refer to objects. -/
def Anchored (h : Heap) : Prop := ∀ p x, h.Old p → h.Refers p x → h.Live x

/-! ## References after a step -/

theorem Added.refers_of (ha : Added h h' v t n) (hs : h.Sound) (hs' : h'.Sound)
    (harrays : ∀ {a f}, h'.IsArray a f → h.IsArray a f) (hp : p ≠ v) (href : h'.Refers p x) :
    h.Refers p x := by
  have he := ha.keeps.toExtends
  have hlive : h.Live p := by
    obtain ⟨m, hm⟩ := href.live hs'
    rw [ha.size?, if_neg hp] at hm
    exact ⟨m, hm⟩
  obtain ⟨k, hslot, hx⟩ := href
  have hback : h.RefSlot p k := by
    cases hslot with
    | field type layout field outside =>
      rw [ha.registry] at layout
      exact .field (hs.typeOf_of_live he hlive type) layout field outside
    | data type => exact .data (hs.arrayType_of_live he hlive type)
    | owner type => exact .owner (hs.arrayType_of_live he hlive type)
    | item type index =>
      have type := hs.typeOf_of_live he hlive type
      obtain ⟨m, hm, hle⟩ := hs.size_vector type
      rw [ha.keeps.word_eq hm (by rw [refSize] at hle; omega) fun _ _ _ => id] at index
      exact .item type index
    | element array buffer storage index => exact .element (harrays array) buffer storage index
  obtain ⟨m, hm, hend⟩ := hback.end_le hs
  rw [ha.keeps.slot_eq hm hend fun _ _ _ => id] at hx
  exact ⟨k, hback, hx⟩

theorem Learns.refers_of (hl : h.Learns h') (hs : h.Sound) (href : h'.Refers p x) : h.Refers p x := by
  have he := hl.extends
  have hs' := hs.learns hl
  have hlive : h.Live p := by
    obtain ⟨m, hm⟩ := href.live hs'
    rw [hl.size?_eq] at hm
    exact ⟨m, hm⟩
  obtain ⟨k, hslot, hx⟩ := href
  rw [hl.slot_eq] at hx
  refine ⟨k, ?_, hx⟩
  cases hslot with
  | field type layout field outside =>
    have ht := hs.typeOf_of_live he hlive type
    exact .field ht (hs.layout_of_learns hl ht layout field) field outside
  | data type => exact .data (hs.arrayType_of_live he hlive type)
  | owner type => exact .owner (hs.arrayType_of_live he hlive type)
  | item type index =>
    rw [hl.word_eq] at index
    exact .item (hs.typeOf_of_live he hlive type) index
  | @element a f i array buffer storage index =>
    obtain ⟨rank, s, d, r, hts, -⟩ := array.type
    obtain ⟨m, hm⟩ := live_of_typeOf hts
    rw [hl.size?_eq] at hm
    have array := hs.isArray_of_live (hl.keeps fun _ _ => False) ⟨m, hm⟩ array fun _ => id
    exact .element array buffer storage index

/-- The words of an array change. Nobody is concerned but the array and the buffer that it has then. -/
theorem Rewrites.refers_of_array (hr : Rewrites (fun w _ => w = a) h h') (hs : h.Sound)
    (htype : h.ArrayType a g.elem n) (hg : h'.IsArray a g) (hp : p ≠ g.buffer) (href : h'.Refers p x) :
    h.Refers p x ∨ p = a ∧ (h'.slot a bufferWord = some x ∨ h'.slot a (ownerOffset n) = some x) := by
  have hback (k : Nat) (hslot : h'.RefSlot p k) : h.RefSlot p k := by
    refine hr.refSlot_of (fun hp => ?_) (fun {b f} hb hbuffer hstorage => ?_) hslot
    · obtain ⟨t, d, r, ht, hd, hkind, -⟩ := htype
      have hne : p ≠ a := by
        rintro rfl
        rw [hp] at ht
        cases ht
        rw [hs.descriptor_simpleVector] at hd
        cases hd
        cases hkind
      obtain ⟨m, hm, hle⟩ := hs.size_vector hp
      exact Nat.le_of_eq (hr.word_eq hm (by rw [refSize] at hle; omega) fun _ _ _ => hne)
    · have hne : b ≠ a := by
        rintro rfl
        rw [hg.unique hb] at hbuffer
        exact hp hbuffer.symm
      exact ⟨b, f, hr.isArray_of hs hb fun _ => hne, hbuffer, hstorage, rfl⟩
  rcases hr.refers_of hs hback href with hbefore | ⟨k, hslot, hx, -, -, -, rfl⟩
  · exact .inl hbefore
  · rcases hslot.word_of hs htype with rfl | rfl
    · exact .inr ⟨rfl, .inl hx⟩
    · exact .inr ⟨rfl, .inr hx⟩

/-- A view refers to the buffer, and that is all there is to it. -/
theorem refers_putView (hs : h.Sound) (ha : h.IsArray a f) (ht : h.ArrayType v f.elem dims.length)
    (hne : a ≠ v) (hcount : elementCount dims = some f.length) (hdims : ∀ d ∈ dims, d < 0x10000000000000000)
    (hp : p ≠ v) (href : (h.putView a v f dims).Refers p x) : h.Refers p x := by
  have hcapacity := h.word_lt a capacityWord
  rw [ha.capacity] at hcapacity
  have hr : Rewrites (fun w j => w = v ∨ w = a ∧ flagsWord ≤ j ∧ j < flagsWord + 8) h
      (h.putView a v f dims) :=
    (putView_writes hs ha ht (fun _ => .inl rfl) fun _ hlo hhi => .inr ⟨rfl, hlo, hhi⟩).toRewrites
  obtain ⟨⟨ha', -⟩, hv', -⟩ := arraySound_putView hs ha ht hne hcount hcapacity hdims
  have hback (k : Nat) (hslot : (h.putView a v f dims).RefSlot p k) : h.RefSlot p k := by
    refine hr.refSlot_of (fun hpv => ?_) (fun {b g} hb hbuffer hstorage => ?_) hslot
    · have hpa : p ≠ a := (Sound.ne_of_kind (hs.arrays ha).type hpv hs.descriptor_simpleVector nofun).symm
      obtain ⟨m, hm, hle⟩ := hs.size_vector hpv
      exact Nat.le_of_eq (hr.word_eq hm (by rw [refSize] at hle; omega)
        fun _ _ _ hor => hor.elim hp fun h => hpa h.1)
    · by_cases hba : b = a
      · subst hba
        cases ha'.unique hb
        exact ⟨b, f, ha, hbuffer, hstorage, rfl⟩
      · by_cases hbv : b = v
        · subst hbv
          cases hv'.unique hb
          exact ⟨a, f, ha, hbuffer, hstorage, rfl⟩
        · exact ⟨b, g, hr.isArray_of hs hb fun _ hor => hor.elim hbv fun h => hba h.1, hbuffer, hstorage, rfl⟩
  rcases hr.refers_of hs hback href with hbefore | ⟨k, hslot, -, j, hlo, hhi, hv | ⟨rfl, hj, hj'⟩⟩
  · exact hbefore
  · exact absurd hv hp
  · -- The flags are not where the references are.
    rcases hslot.word_of hs (hs.arrays ha).type with rfl | rfl
    · simp only [bufferWord, flagsWord] at hhi hj
      omega
    · simp only [ownerOffset, flagsWord, refSize] at hlo hj'
      omega

/-- Slots of an array are emptied. -/
theorem refers_clear (hs : h.Sound) (ha : h.IsArray a f) (hle : lo ≤ hi) (hroom : hi ≤ f.capacity)
    (href : (h.put f.buffer (refSize + f.slotOffset lo)
      (List.replicate ((hi - lo) * f.flags.slotSize) 0)).Refers p x) : h.Refers p x := by
  have hb := (hs.arrays ha).body
  have hsize := hs.size_buffer hb.buffer
  obtain ⟨hlen, hend⟩ := hb.slots_end hle hroom
  have hfit : refSize + f.slotOffset lo + (List.replicate ((hi - lo) * f.flags.slotSize) (0 : UInt8)).length ≤
      refSize + h.word f.buffer 0 := by
    rw [List.length_replicate]
    omega
  have hreach := Nat.le_trans (hs.end_le_top hsize) hs.arena.reach
  have hr := Rewrites.put (S := fun w _ => w = f.buffer) hs.arena hsize hfit fun _ _ _ => rfl
  refine refers_put hs hsize hfit (fun j hslot => ?_) (fun j hslot => ?_) href
  · exact hr.refSlot_of_plain hs hb.buffer hs.descriptor_buffer nofun nofun hslot
  · obtain ⟨hstorage, m, hm, rfl⟩ := hslot.element_of_isArray hs ha
    have hsize8 := hb.slotSize_references hstorage
    simp only [ArrayInfo.slotOffset, hsize8, refSize, List.length_replicate] at hlen hend hreach ⊢
    by_cases hin : lo ≤ m ∧ m < hi
    · refine .inr (slot_eq_none_of_zero (word_eq_zero fun j hj hj' => ?_))
      obtain ⟨c, rfl⟩ : ∃ c, j = 8 + lo * 8 + c := ⟨j - (8 + lo * 8), by omega⟩
      rw [byte_put_inside (by rw [List.length_replicate]; omega) (by rw [List.length_replicate]; omega),
        List.getElem_replicate]
    · exact .inl (by omega)

/-! ### Simple vectors -/

/-- An element of a simple vector lies inside it, behind the length. -/
theorem Sound.item_end (hs : h.Sound) (ht : h.typeOf v = .ok Builtin.simpleVector) (hi : i < h.word v 0) :
    ∃ n, h.size? v = some n ∧ refSize * (i + 1) + 8 ≤ n := by
  obtain ⟨n, hn, hle⟩ := hs.size_vector ht
  exact ⟨n, hn, by rw [refSize] at hle ⊢; omega⟩

/-- Elements of a simple vector do not overlap. -/
theorem RefSlot.item_separate (hslot : h.RefSlot v j) (hs : h.Sound)
    (ht : h.typeOf v = .ok Builtin.simpleVector) (i : Nat) :
    j = refSize * (i + 1) ∨ j + 8 ≤ refSize * (i + 1) ∨ refSize * (i + 1) + 8 ≤ j := by
  obtain ⟨m, -, rfl⟩ := hslot.item_of hs ht
  rw [refSize]
  omega

theorem refers_storeItem (hs : h.Sound) (ht : h.typeOf v = .ok Builtin.simpleVector) (hi : i < h.word v 0)
    (href : ((h.putWord v (refSize * (i + 1)) y.offset).guarded v y).Refers p x) :
    h.Refers p x ∨ p = v ∧ x = y := by
  obtain ⟨n, hn, hend⟩ := hs.item_end ht hi
  have hput : Rewrites (fun w j => w = v ∧ refSize ≤ j) h (h.putWord v (refSize * (i + 1)) y.offset) :=
    .putWord hs.arena hn hend fun j hj _ => ⟨rfl, by rw [refSize] at hj ⊢; omega⟩
  have hr := hput.trans (.guarded (hput.arena hs.arena) v y)
  have hlength : ((h.putWord v (refSize * (i + 1)) y.offset).guarded v y).word v 0 = h.word v 0 :=
    hr.word_eq hn (by omega) fun j _ hj hw => by
      rw [refSize] at hw
      omega
  refine refers_store hs hn hend (fun j hslot => ?_) (fun j hslot => hslot.item_separate hs ht i) href
  exact (hr.mono fun _ _ hw => hw.1).refSlot_of_vector hs ht (Nat.le_of_eq hlength) hslot

theorem refers_clearItem (hs : h.Sound) (ht : h.typeOf v = .ok Builtin.simpleVector) (hi : i < h.word v 0)
    (href : (h.putWord v (refSize * (i + 1)) 0).Refers p x) : h.Refers p x := by
  obtain ⟨n, hn, hend⟩ := hs.item_end ht hi
  have hreach := Nat.le_trans (hs.end_le_top hn) hs.arena.reach
  have hr : Rewrites (fun w _ => w = v) h (h.putWord v (refSize * (i + 1)) 0) :=
    .putWord hs.arena hn hend fun _ _ _ => rfl
  have hlength : (h.putWord v (refSize * (i + 1)) 0).word v 0 = h.word v 0 :=
    word_putWord_outside (.inl (by rw [refSize]; omega))
  have hlen := LittleEndian.length_toBytes 8 0
  refine refers_put hs hn (hlen.symm ▸ hend) (fun j hslot => ?_) (fun j hslot => ?_) href
  · exact hr.refSlot_of_vector hs ht (Nat.le_of_eq hlength) hslot
  · rw [hlen]
    rcases hslot.item_separate hs ht i with rfl | hsep
    · exact .inr (slot_putWord (x := none) (by omega))
    · exact .inl hsep

theorem refers_shorten (hs : h.Sound) (ht : h.typeOf v = .ok Builtin.simpleVector) (hle : n ≤ h.word v 0)
    (href : (h.putWord v 0 n).Refers p x) : h.Refers p x := by
  obtain ⟨m, hm, hroom⟩ := hs.size_vector ht
  have hlt := h.word_lt v 0
  have hreach := Nat.le_trans (hs.end_le_top hm) hs.arena.reach
  rw [refSize] at hroom
  have hr : Rewrites (fun w _ => w = v) h (h.putWord v 0 n) :=
    .putWord hs.arena hm (by omega) fun _ _ _ => rfl
  have hlength : (h.putWord v 0 n).word v 0 = n := word_putWord (by omega) (by omega)
  have hlen := LittleEndian.length_toBytes 8 n
  refine refers_put hs hm (by rw [hlen]; omega) (fun j hslot => ?_) (fun j hslot => ?_) href
  · exact hr.refSlot_of_vector hs ht (hlength.symm ▸ hle) hslot
  · obtain ⟨i, -, rfl⟩ := hslot.item_of hs ht
    exact .inl (.inr (by rw [hlen, refSize]; omega))

/-! ### Fields -/

/-- An object with fields is no array and no simple vector. -/
theorem Sound.not_vector (hs : h.Sound) (hl : h.registry.layouts.find? t = some l)
    (hsome : l.isBits = true ∨ ∃ e, e ∈ l.fields) :
    ∃ d, h.types.descriptor t = .ok d ∧ d.kind ≠ .array ∧ d.kind ≠ .simpleVector := by
  obtain ⟨d, hd, hdesc⟩ := hs.registry.layouts.describes hl
  have hkind := Sound.kind_of_contents hdesc hsome
  refine ⟨d, hd, hkind.2, fun hvector => ?_⟩
  rw [hvector] at hkind
  cases hkind.1

theorem Rewrites.refSlot_of_fields (hr : Rewrites (fun w _ => w = v) h h') (hs : h.Sound)
    (ht : h.typeOf v = .ok t) (hl : h.registry.layouts.find? t = some l)
    (hsome : l.isBits = true ∨ ∃ e, e ∈ l.fields) (hslot : h'.RefSlot p k) : h.RefSlot p k := by
  obtain ⟨d, hd, harray, hvector⟩ := hs.not_vector hl hsome
  refine hr.refSlot_of_plain hs ht hd harray (fun heq => ?_) hslot
  rw [heq, hs.descriptor_simpleVector] at hd
  cases hd
  exact absurd rfl hvector

theorem refers_storeField (hs : h.Sound) (ht : h.typeOf v = .ok t)
    (hl : h.registry.layouts.find? t = some l) (he : e ∈ l.fields) (hout : e.isInline = false)
    (href : ((h.putWord v e.offset y.offset).guarded v y).Refers p x) : h.Refers p x ∨ p = v ∧ x = y := by
  have hsize {g : FieldLayout} (hg : g ∈ l.fields) (hout : g.isInline = false) : g.size = 8 :=
    hs.registry.layouts.size_reference hl hg hout
  have hend := hs.registry.layouts.end_le hl he
  rw [hsize he hout] at hend
  have hn := hs.size_record ht hl he
  have hput : Rewrites (fun w _ => w = v) h (h.putWord v e.offset y.offset) :=
    .putWord hs.arena hn hend fun _ _ _ => rfl
  have hr := hput.trans (.guarded (hput.arena hs.arena) v y)
  refine refers_store hs hn hend (fun j hslot => hr.refSlot_of_fields hs ht hl (.inr ⟨e, he⟩) hslot)
    (fun j hslot => ?_) href
  obtain ⟨g, hg, hgout, rfl⟩ := hslot.field_of hs ht hl (.inr ⟨e, he⟩)
  rcases hs.registry.layouts.separate hl he hg with rfl | hsep
  · exact .inl rfl
  · rw [Layout.Separate, hsize he hout, hsize hg hgout] at hsep
    exact .inr hsep.symm

theorem refers_putField (hs : h.Sound) (ht : h.typeOf v = .ok t)
    (hl : h.registry.layouts.find? t = some l) (he : e ∈ l.fields) (hin : e.isInline = true)
    (hlen : bs.length = e.size) (href : (h.put v e.offset bs).Refers p x) : h.Refers p x := by
  have hend := hs.registry.layouts.end_le hl he
  rw [← hlen] at hend
  have hn := hs.size_record ht hl he
  have hr : Rewrites (fun w _ => w = v) h (h.put v e.offset bs) := .put hs.arena hn hend fun _ _ _ => rfl
  refine refers_put hs hn hend (fun j hslot => hr.refSlot_of_fields hs ht hl (.inr ⟨e, he⟩) hslot)
    (fun j hslot => .inl ?_) href
  obtain ⟨g, hg, hgout, rfl⟩ := hslot.field_of hs ht hl (.inr ⟨e, he⟩)
  rcases hs.registry.layouts.separate hl he hg with rfl | hsep
  · rw [hin] at hgout
    cases hgout
  · rw [Layout.Separate, hs.registry.layouts.size_reference hl hg hgout, ← hlen] at hsep
    exact hsep.symm

/-! ### Objects without references -/

theorem refers_putBits (hs : h.Sound) (ht : h.typeOf v = .ok t) (hl : h.registry.layouts.find? t = some l)
    (hbits : l.isBits = true) (hlen : bs.length = l.size) (href : (h.put v 0 bs).Refers p x) : h.Refers p x := by
  obtain ⟨d, hd, hdesc⟩ := hs.registry.layouts.describes hl
  have hkind := Sound.kind_of_isBits hdesc hbits
  have hr : Rewrites (fun w _ => w = v) h (h.put v 0 bs) :=
    .put hs.arena (hs.size_bits ht hl hbits) (by omega) fun _ _ _ => rfl
  refine hr.refers_of_slotless hs ht hd hkind.2 (fun hvector => ?_) (fun k hslot => ?_) href
  · rw [hvector] at hkind
    cases hkind.1
  · obtain ⟨e, he, hout, -⟩ := hslot.field_of hs ht hl (.inl hbits)
    rw [hs.registry.layouts.inline_of_isBits hl hbits he] at hout
    cases hout

theorem refers_putText (hs : h.Sound) (ht : h.typeOf v = .ok Builtin.string) (hlen : bs.length = h.word v 0)
    (href : (h.put v refSize bs).Refers p x) : h.Refers p x := by
  have hr : Rewrites (fun w _ => w = v) h (h.put v refSize bs) :=
    .put hs.arena (hs.size_string ht) (by omega) fun _ _ _ => rfl
  refine hr.refers_of_slotless hs ht hs.descriptor_string nofun nofun (fun k hslot => ?_) href
  rcases hslot.cases_of_type hs ht hs.descriptor_string with ⟨l, e, hl, he, -⟩ | ⟨hkind, -⟩ | ⟨hkind, -⟩ | ⟨hkind, -⟩
  · obtain ⟨d, hd, hdesc⟩ := hs.registry.layouts.describes hl
    rw [show h.registry.table.descriptor Builtin.string = _ from hs.descriptor_string] at hd
    cases hd
    cases (Sound.kind_of_field hdesc he).1
  · cases hkind
  · cases hkind
  · cases hkind

/-- No array has a use for the buffer. -/
theorem refers_putUnused (hs : h.Sound) (ht : h.typeOf v = .ok Builtin.buffer)
    (hunused : ∀ {a f}, h.IsArray a f → f.buffer ≠ v) (hend : k + bs.length ≤ refSize + h.word v 0)
    (href : (h.put v k bs).Refers p x) : h.Refers p x := by
  have hr : Rewrites (fun w _ => w = v) h (h.put v k bs) :=
    .put hs.arena (hs.size_buffer ht) hend fun _ _ _ => rfl
  refine hr.refers_of_slotless hs ht hs.descriptor_buffer nofun nofun (fun j hslot => ?_) href
  obtain ⟨a, f, i, ha, heq, -⟩ := hslot.element_of hs ht
  exact hunused ha heq

/-- A buffer whose elements are no references has no slots. -/
theorem refers_writeBits (hs : h.Sound) (ha : h.IsArray a f) (hstorage : f.flags.storage ≠ .references)
    (hw : Writes (fun w _ => w = f.buffer) h h') (href : h'.Refers p x) : h.Refers p x :=
  hw.refers_of_slotless hs (hs.arrays ha).body.buffer hs.descriptor_buffer nofun nofun
    (fun _ hslot => hstorage (hslot.element_of_isArray hs ha).1) href

theorem refers_clearSelectors (hs : h.Sound) (ha : h.IsArray a f) (hstorage : f.flags.storage = .selected)
    (hle : lo ≤ hi) (hroom : hi ≤ f.capacity)
    (href : (h.put f.buffer (refSize + f.selectorOffset lo) (List.replicate (hi - lo) 0)).Refers p x) :
    h.Refers p x := by
  have hb := (hs.arrays ha).body
  have hend := hb.selector_end hstorage hroom
  have hw : Writes (fun w _ => w = f.buffer) h
      (h.put f.buffer (refSize + f.selectorOffset lo) (List.replicate (hi - lo) 0)) := by
    refine .put hs.arena (hs.size_buffer hb.buffer) ?_ fun _ _ _ => rfl
    rw [List.length_replicate]
    simp only [ArrayInfo.selectorOffset] at hend ⊢
    omega
  exact refers_writeBits hs ha (by rw [hstorage]; decide) hw href

/-! ### Arrays -/

theorem refers_storeElement (hs : h.Sound) (ha : h.IsArray a f) (hi : i < f.length)
    (hstorage : f.flags.storage = .references)
    (href : ((h.putWord f.buffer (refSize + f.slotOffset i) y.offset).guarded f.buffer y).Refers p x) :
    h.Refers p x ∨ p = f.buffer ∧ x = y := by
  have hb := (hs.arrays ha).body
  have hsize := hs.size_buffer hb.buffer
  have hslotSize := hb.slotSize_references hstorage
  have hend := hb.slot_end (Nat.lt_of_lt_of_le hi hb.length_le)
  rw [hslotSize] at hend
  have hend : refSize + f.slotOffset i + 8 ≤ refSize + h.word f.buffer 0 := by omega
  have hput : Rewrites (fun w _ => w = f.buffer) h (h.putWord f.buffer (refSize + f.slotOffset i) y.offset) :=
    .putWord hs.arena hsize hend fun _ _ _ => rfl
  have hr := hput.trans (.guarded (hput.arena hs.arena) f.buffer y)
  refine refers_store hs hsize hend (fun j hslot => ?_) (fun j hslot => ?_) href
  · exact hr.refSlot_of_plain hs hb.buffer hs.descriptor_buffer nofun nofun hslot
  · obtain ⟨-, m, -, rfl⟩ := hslot.element_of_isArray hs ha
    simp only [ArrayInfo.slotOffset, hslotSize, refSize]
    omega

/-- An array moves to another buffer. -/
theorem refers_putBuffer (hs : h.Sound) (ha : h.IsArray a f) (hndims : f.flags.ndims = 1)
    (hbody : h.BodySound { f with buffer, capacity := n }) (hn : n < 0x10000000000000000)
    (hp : p ≠ buffer) (href : (h.putBuffer a buffer n).Refers p x) :
    h.Refers p x ∨ p = a ∧ x = buffer := by
  have hr : Rewrites (fun w _ => w = a) h (h.putBuffer a buffer n) :=
    (putBuffer_writes hs ha hndims fun _ => rfl).toRewrites
  obtain ⟨ha', hsound⟩ := arraySound_putBuffer hs ha hndims hbody hn
  have htype := (hs.arrays ha).type
  rcases hr.refers_of_array (g := { f with buffer, capacity := n }) hs htype ha' hp href with
    hbefore | ⟨rfl, hx | hx⟩
  · exact .inl hbefore
  · rw [ha'.buffer] at hx
    cases hx
    exact .inr ⟨rfl, rfl⟩
  · rw [hsound.owner] at hx
    cases hx
    exact .inr ⟨rfl, rfl⟩

/-- An array gets another length. -/
theorem refers_putLength (hs : h.Sound) (ha : h.IsArray a f) (hndims : f.flags.ndims = 1)
    (hbody : h.BodySound { f with length := n }) (href : (h.putLength a n).Refers p x) : h.Refers p x := by
  have hcapacity := h.word_lt a capacityWord
  rw [ha.capacity] at hcapacity
  have hr : Rewrites (fun w _ => w = a) h (h.putLength a n) :=
    (putLength_writes hs ha hndims fun _ _ => rfl).toRewrites
  obtain ⟨ha', hsound⟩ := arraySound_putLength hs ha hndims hbody (Nat.lt_of_le_of_lt hbody.length_le hcapacity)
  have hback (k : Nat) (hslot : (h.putLength a n).RefSlot p k) : h.RefSlot p k := by
    refine hr.refSlot_of (fun hp => ?_) (fun {b g} hb hbuffer hstorage => ?_) hslot
    · have hne : a ≠ p := Sound.ne_of_kind (hs.arrays ha).type hp hs.descriptor_simpleVector nofun
      obtain ⟨m, hm, hle⟩ := hs.size_vector hp
      exact Nat.le_of_eq (hr.word_eq hm (by rw [refSize] at hle; omega) fun _ _ _ => hne.symm)
    · by_cases hba : b = a
      · subst hba
        cases ha'.unique hb
        exact ⟨b, f, ha, hbuffer, hstorage, rfl⟩
      · exact ⟨b, g, hr.isArray_of hs hb fun _ => hba, hbuffer, hstorage, rfl⟩
  rcases hr.refers_of hs hback href with hbefore | ⟨k, hslot, hx, -, -, -, rfl⟩
  · exact hbefore
  · refine ⟨k, hslot, ?_⟩
    rcases hslot.word_of hs (hs.arrays ha).type with rfl | rfl
    · rw [ha'.buffer] at hx
      exact ha.buffer.trans hx
    · rw [hsound.owner] at hx
      exact (hs.arrays ha).owner.trans hx

/-! ## Steps -/

/-- What is known of a reference that a step stores. -/
structure Stored (S : Value → Nat → Prop) (h h' : Heap) (p x : Value) : Prop where
  /-- The barrier is told. -/
  told : h'.Old p → h'.Young x → h'.Remembered p
  /-- Only a simple vector under construction may come to refer to no object. -/
  lead : h.Live x ∨ h.typeOf p = .ok Builtin.simpleVector ∧ ∀ j, S p j
  /-- What a module is put in does not lie in the module, and nothing else is stored. -/
  outer : h.typeOf p = .ok Builtin.moduleType → (x ≠ p → ¬Relation.ReflTransGen h.Inside x p) ∧
    ∀ q y, h'.Refers q y → h.Refers q y ∨ q = p ∧ y = x

/-- An object refers to somebody because it did so before, or because a step stores that. Young arrays and
young buffers are left out: they may still be under construction. -/
theorem Step.refers (step : Step S h h') (hs : h.Sound) (hlive : h.Live p)
    (hnot : ∀ q, h.Young q → (h.typeOf q = .ok Builtin.buffer ∨ ∃ elem rank, h.ArrayType q elem rank) → p ≠ q)
    (href : h'.Refers p x) : h.Refers p x ∨ Stored S h h' p x := by
  have hnever {t : TypeRef} (ht : h.typeOf p = .ok t) (hne : t ≠ Builtin.moduleType)
      (hm : h.typeOf p = .ok Builtin.moduleType) : False :=
    hne (Except.ok.inj (ht.symm.trans hm))
  cases step with
  | learns learns => exact .inl (learns.refers_of hs href)
  | symbol s => exact .inl ((Rewrites.withSymbols _ h _).refers_of_nothing hs href)
  | @allocated t d extra n v descriptor size start room =>
    have hadded := allocated_added hs descriptor size start room
    have hp : p ≠ v := by
      rintro rfl
      exact hadded.fresh hlive
    have hs' := hs.allocated descriptor size start room
    exact .inl (hadded.refers_of hs hs'
      (hadded.isArray_of hs descriptor fun k hk => byte_allocated hs.arena start hk) hp href)
  | bits type layout isBits length provided allowed => exact .inl (refers_putBits hs type layout isBits length href)
  | text type length allowed => exact .inl (refers_putText hs type length href)
  | vectorSlot type index allowed =>
    rcases refers_storeItem hs type index href with hbefore | ⟨rfl, rfl⟩
    · exact .inl hbefore
    · exact .inr ⟨remembered_guarded (hs.put_item type index _).arena, .inr ⟨type, allowed⟩,
        fun hm => (hnever type (by decide) hm).elim⟩
  | vectorCleared type index allowed => exact .inl (refers_clearItem hs type index href)
  | vectorLength type le allowed => exact .inl (refers_shorten hs type le href)
  | fieldRef type layout field outside child isa outer allowed =>
    have hput := hs.put_fieldRef type layout field outside (isa_eq_ok.2 ⟨_, child, isa⟩)
    rcases refers_storeField hs type layout field outside href with hbefore | ⟨rfl, rfl⟩
    · exact .inl hbefore
    · refine .inr ⟨remembered_guarded hput.arena, .inl (live_of_typeOf child), fun hm => ⟨?_, ?_⟩⟩
      · exact outer (Except.ok.inj (type.symm.trans hm))
      · exact fun q y hy => refers_storeField hs type layout field outside hy
  | fieldBits type layout field inline length provided allowed =>
    exact .inl (refers_putField hs type layout field inline length href)
  | @arrayBuilt a f dims type body ndims unshared count room words sole young youngBuffer zero allowed =>
    have hr : Rewrites (fun w _ => w = a) h (h.putArray a f dims) :=
      (putArray_writes hs type fun _ => rfl).toRewrites
    obtain ⟨ha, -⟩ := arraySound_putArray hs type body ndims count room words
    rcases hr.refers_of_array hs type ha (hnot _ youngBuffer (.inl body.buffer)) href with hbefore | ⟨hpa, -⟩
    · exact .inl hbefore
    · exact absurd hpa (hnot _ young (.inr ⟨_, _, type⟩))
  | arrayViewed array type other count words young allowed marked =>
    exact .inl (refers_putView hs array type other count words (hnot _ young (.inr ⟨_, _, type⟩)) href)
  | @arrayMoved a f buffer n array ndims unshared body room sole young same allowed =>
    have hmoved := hs.moved array ndims body room sole
    have hput := (Rewrites.guarded hmoved.arena a buffer).refers_of_nothing hmoved href
    rcases refers_putBuffer hs array ndims body room (hnot _ young (.inl body.buffer)) hput with
      hbefore | ⟨rfl, rfl⟩
    · exact .inl hbefore
    · refine .inr ⟨remembered_guarded hmoved.arena, .inl ((young_iff hs.arena).1 young).1, fun hm => ?_⟩
      obtain ⟨t, d, n, ht, hd, hkind, -⟩ := (hs.arrays array).type
      cases ht.symm.trans hm
      cases hd.symm.trans (hs.builtin rfl)
      cases hkind
  | arrayLength array ndims unshared body allowed => exact .inl (refers_putLength hs array ndims body href)
  | buffer type unused start stop allowed => exact .inl (refers_putUnused hs type unused stop href)
  | elementRef array index storage child isa allowed =>
    have hput := hs.put_reference array index storage (isa_eq_ok.2 ⟨_, child, isa⟩)
    rcases refers_storeElement hs array index storage href with hbefore | ⟨rfl, rfl⟩
    · exact .inl hbefore
    · exact .inr ⟨remembered_guarded hput.arena, .inl (live_of_typeOf child),
        fun hm => (hnever (hs.arrays array).body.buffer (by decide) hm).elim⟩
  | elementBits array index storage length provided allowed =>
    exact .inl (refers_writeBits hs array (by rw [storage]; nofun)
      (.put_element hs array index (Nat.add_le_add_left (Nat.le_of_eq length) _)) href)
  | elementMember array index storage union member length provided allowed =>
    have hle := hs.member_le array storage union (List.mem_of_getElem? member) length
    have hsel := hs.selector_of_member array storage union member
    rw [Nat.add_assoc] at href
    exact .inl (refers_writeBits hs array (by rw [storage]; nofun) (hs.put_slot array index storage hsel
      (Nat.add_le_add_left hle _) (by rw [List.length_replicate]; omega)).2 href)
  | elementScalar array index storage union member length provided allowed =>
    have hle := hs.member_le array storage union (List.mem_of_getElem? member) length
    have hsel := hs.selector_of_member array storage union member
    exact .inl (refers_writeBits hs array (by rw [storage]; nofun) (hs.put_slot array index storage hsel
      (Nat.le_of_eq (by rw [List.length_replicate])) (Nat.add_le_add_left hle _)).2 href)
  | elementsCleared array le room allowed => exact .inl (refers_clear hs array le room href)
  | selectorsCleared array le room storage empty allowed =>
    exact .inl (refers_clearSelectors hs array storage le room href)

/-- The same for old objects. -/
theorem Step.refers_of_old (step : Step S h h') (hs : h.Sound) (hold : h'.Old p) (href : h'.Refers p x) :
    h.Refers p x ∨ Stored S h h' p x := by
  have hp := ((step.ages hs).old p).1 hold
  refine step.refers hs ((old_iff hs.arena).1 hp).1 (fun q hq _ => ?_) href
  rintro rfl
  exact hq.not_old hp

/-- A step leaves no reference to a young object unnoticed, if references of old objects lead to objects,
or if there is no new object that they could lead to by chance. -/
theorem Step.covered (step : Step S h h') (hs : h.Sound) (hlead : h.Anchored ∨ ∀ v, h'.Live v → h.Live v)
    (hc : h.Covered) : h'.Covered := by
  intro p x hold href hyoung
  have hages := step.ages hs
  have hp := (hages.old p).1 hold
  rcases step.refers_of_old hs hold href with hbefore | hstored
  · have hx : h.Live x := by
      rcases hlead with hanchored | hsame
      · exact hanchored p x hp hbefore
      · exact hsame x ((young_iff (step.sound hs).arena).1 hyoung).1
    have hnot : ¬h.Old x := fun hx => hyoung.not_old ((hages.old x).2 hx)
    exact hages.remembered p (hc p x hp hbefore (young_of_not_old hs.arena hx hnot))
  · exact hstored.told hold hyoung

theorem Step.anchored (step : Step S h h') (hs : h.Sound)
    (hS : ∀ p, h.Old p → h.typeOf p = .ok Builtin.simpleVector → ∃ j, ¬S p j) (ha : h.Anchored) :
    h'.Anchored := by
  intro p x hold href
  have hp := ((step.ages hs).old p).1 hold
  refine (step.keeps hs).live ?_
  rcases step.refers_of_old hs hold href with hbefore | hstored
  · exact ha p x hp hbefore
  rcases hstored.lead with hx | ⟨htype, hall⟩
  · exact hx
  · obtain ⟨j, hj⟩ := hS p hp htype
    exact absurd (hall j) hj

/-! ## Many steps -/

/-- By induction on the path: as long as simple vectors are left alone, references of old objects lead to
objects, and those to young ones are noticed. -/
theorem Path.covered (path : Path S h h') (hs : h.Sound)
    (hS : ∀ p, h.typeOf p = .ok Builtin.simpleVector → ∃ j, ¬S p j) (ha : h.Anchored) (hc : h.Covered) :
    h'.Covered := by
  have hboth : h'.Covered ∧ h'.Anchored := by
    induction path with
    | refl => exact ⟨hc, ha⟩
    | @tail h₁ h₂ rest step ih =>
      have hs₁ := Path.sound rest hs
      refine ⟨step.covered hs₁ (.inl ih.2) ih.1, step.anchored hs₁ (fun p hold htype => ?_) ih.2⟩
      have hlive := ((old_iff hs.arena).1 (((Path.ages rest hs).old p).1 hold)).1
      exact hS p (hs.typeOf_of_live (Path.keeps rest hs).toExtends hlive htype)
  exact hboth.1

/-- The same without new objects, wherever references lead. -/
theorem Path.covered_of_live (path : Path S h h') (hs : h.Sound) (hlive : ∀ v, h'.Live v → h.Live v)
    (hc : h.Covered) : h'.Covered := by
  induction path with
  | refl => exact hc
  | tail rest step ih =>
    have hs₁ := Path.sound rest hs
    have hrest := ih fun v hv => hlive v ((step.keeps hs₁).live hv)
    exact step.covered hs₁ (.inr fun v hv => (Path.keeps rest hs).live (hlive v hv)) hrest

/-- What the barrier is told leaves references as they are. -/
theorem Reports.covered (hw : Reports (fun _ _ => False) h h') (hs : h.Sound) (hc : h.Covered) : h'.Covered := by
  intro p x hold href hyoung
  have hages := hw.ages hs.arena
  have hbefore : h.Young x := by
    obtain ⟨hx, hbit⟩ := (young_iff (hw.arena hs.arena)).1 hyoung
    have hx := hw.live_iff.1 hx
    exact (young_iff hs.arena).2 ⟨hx, (hw.old x hx).symm.trans hbit⟩
  exact hages.remembered p (hc p x ((hages.old p).1 hold) (hw.refers_of_nothing hs href) hbefore)

theorem Mutates.covered (hm : Mutates S h h') (hs : h.Sound)
    (hS : ∀ p, h.typeOf p = .ok Builtin.simpleVector → ∃ j, ¬S p j) (ha : h.Anchored) (hc : h.Covered) :
    h'.Covered := by
  cases hm with
  | path path => exact Path.covered path hs hS ha hc
  | told reports => exact reports.covered hs hc

end TypedHeap.Heap
