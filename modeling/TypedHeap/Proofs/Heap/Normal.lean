import TypedHeap.Proofs.Array.Stores
import TypedHeap.Proofs.Heap.Order
import TypedHeap.Proofs.Layout.Leaves

/-!
# Values in normal form

Objects of a fixed size, inline fields and elements in place are values, and they are all in normal form: their
padding is zero, and their leaves can be read. Whoever stores a value takes it from one of these places.

* `Heap.Normal`, `Heap.NormalSlot`: a value in normal form, at a place in an object or in a slot of an array.
* `Heap.Tidy`: every value is in normal form.
* `Tidy.provides`: so are bits that may be stored.

Main results: `Tidy.of_rewrites`, `Tidy.of_object`, `Tidy.of_slots`.
-/

namespace TypedHeap.Heap

open ArrayObject

variable {h h' : Heap} {a v w : Value} {f g : ArrayInfo} {t : TypeRef} {d : Descriptor} {l : Layout}
  {e : FieldLayout} {i j k n lo hi : Nat} {S : Value → Nat → Prop} {bs : List UInt8} {s : Symbol}

/-- Kinds without a length and other than arrays have a fixed size. -/
theorem isVariableSize_eq_false_iff {kind : TypeKind} :
    kind.isVariableSize = false ↔ hasLength kind = false ∧ kind ≠ .array := by
  cases kind <;> simp [TypeKind.isVariableSize, hasLength]

/-- A type with a layout of bits has objects of a fixed size. -/
theorem Sound.fixed_of_isBits (hs : h.Sound) (hl : h.registry.layouts.find? t = some l) (hbits : l.isBits = true) :
    ∃ d, h.types.descriptor t = .ok d ∧ d.kind.isVariableSize = false := by
  obtain ⟨d, hd, hdesc⟩ := hs.registry.layouts.describes hl
  exact ⟨d, hd, isVariableSize_eq_false_iff.2 (kind_of_isBits hdesc hbits)⟩

/-- So has a type with fields. -/
theorem Sound.fixed_of_field (hs : h.Sound) (hl : h.registry.layouts.find? t = some l) (he : e ∈ l.fields) :
    ∃ d, h.types.descriptor t = .ok d ∧ d.kind.isVariableSize = false := by
  obtain ⟨d, hd, hdesc⟩ := hs.registry.layouts.describes hl
  exact ⟨d, hd, isVariableSize_eq_false_iff.2 (kind_of_field hdesc he)⟩

/-- An object of a fixed size has a layout that says its size. -/
theorem Sound.fixed_layout (hs : h.Sound) (ht : h.typeOf v = .ok t) (hd : h.types.descriptor t = .ok d)
    (hfixed : d.kind.isVariableSize = false) :
    ∃ l, h.registry.layouts.find? t = some l ∧ h.size? v = some l.size := by
  obtain ⟨n, hn, hshape⟩ := hs.shaped_of_typeOf ht hd
  unfold Shaped at hshape
  cases hkind : d.kind <;> simp only [hkind] at hshape hfixed
  case primitive | struct | tuple =>
    obtain ⟨l, hl, rfl⟩ := hshape
    exact ⟨l, hl, hn⟩
  all_goals cases hfixed

/-! ## Values -/

/-- The bytes from an offset in an object on are a value in normal form. -/
def Normal (h : Heap) (t : TypeRef) (v : Value) (k : Nat) : Prop :=
  h.registry.Normal h.symbols t fun j => h.byte v (k + j)

/-- A slot in use holds a value in normal form, and zeros behind it. -/
def NormalSlot (h : Heap) (f : ArrayInfo) (i : Nat) : Prop :=
  ∃ t n, h.ElementBits f i t n ∧ h.Normal t f.buffer (refSize + f.slotOffset i) ∧
    ∀ j, n ≤ j → j < f.flags.slotSize → h.byte f.buffer (refSize + f.slotOffset i + j) = 0

/-- Equal bytes are in normal form too. -/
theorem Normal.congr (hb : h.Normal t v k) (hs : h.Sound) (hl : h.registry.layouts.find? t = some l)
    (he : h.registry.Extends h'.registry) (hsymbols : h.symbols.Grows h'.symbols)
    (hbyte : ∀ j, j < l.size → h'.byte w (n + j) = h.byte v (k + j)) : h'.Normal t w n :=
  Registry.Normal.congr hb hs.registry he hsymbols hl hbyte

theorem Normal.zeros (hs : h.Sound) (hfirst : h.symbols.find? 0 = some s)
    (hl : h.registry.layouts.find? t = some l) (hzero : ∀ j, j < l.size → h.byte v (k + j) = 0) : h.Normal t v k :=
  Registry.Normal.zeros hs.registry hfirst hl hzero

/-- Bits in normal form are so where they are put. -/
theorem Normal.put (hb : h.registry.Normal h.symbols t fun j => bs[j]?.getD 0) (hs : h.Sound)
    (hl : h.registry.layouts.find? t = some l) (hlen : bs.length = l.size)
    (hend : v.offset + k + bs.length ≤ h.memory.length) : (h.put v k bs).Normal t v k := by
  have hnormal : h.registry.Normal h.symbols t fun j => (h.put v k bs).byte v (k + j) := by
    refine Registry.Normal.congr hb hs.registry (.refl _) (.refl _) hl fun j hj => ?_
    rw [byte_put_inside hend (by omega), List.getElem?_eq_getElem (by omega)]
    rfl
  rw [Normal, put_registry, put_symbols]
  exact hnormal

theorem NormalSlot.of_same (hx : h.NormalSlot f i) (hs : h.Sound) (hb : h.BodySound f)
    (hsymbols : h.symbols.Grows h'.symbols) (hsame : SameSlot h f h' g i) : h'.NormalSlot g i := by
  obtain ⟨t, n, hbits, hnormal, hzero⟩ := hx
  obtain ⟨l, hl, -, rfl, hle⟩ := hbits.layout hb
  refine ⟨t, l.size, hbits.of_same hsame, ?_, fun j hj hj' => ?_⟩
  · exact hnormal.congr hs hl hsame.registry hsymbols fun j hj => hsame.bytes j (by omega)
  · rw [hsame.slotSize] at hj'
    rw [hsame.bytes j hj', hzero j hj hj']

/-- Arrays that share a buffer see the same in a slot. -/
theorem NormalSlot.sameBody (hx : h.NormalSlot f i) (hs : h.Sound) (hb : h.BodySound f) (hfg : f.SameBody g) :
    h.NormalSlot g i := by
  refine hx.of_same hs hb (.refl _) ⟨.refl _, hfg.elem, hfg.storage, hfg.slotSize, fun j _ => ?_, fun _ => ?_⟩
  · rw [hfg.buffer, hfg.slotOffset]
  · rw [hfg.buffer, hfg.selectorOffset]

/-- A slot of zeros is in normal form, whichever member of a union its selector names. -/
theorem NormalSlot.zeros (hs : h.Sound) (hfirst : h.symbols.find? 0 = some s) (hb : h.BodySound f)
    (hi : i < f.length) (hstorage : f.flags.storage ≠ .references)
    (hzero : ∀ j, j < f.flags.slotSize → h.byte f.buffer (refSize + f.slotOffset i + j) = 0) : h.NormalSlot f i := by
  have hslot {t : TypeRef} {n : Nat} (hbits : h.ElementBits f i t n) : h.NormalSlot f i := by
    obtain ⟨l, hl, -, rfl, hle⟩ := hbits.layout hb
    exact ⟨t, l.size, hbits, .zeros hs hfirst hl fun j hj => hzero j (by omega), fun j _ hj => hzero j hj⟩
  cases hkind : f.flags.storage with
  | references => exact absurd hkind hstorage
  | flat => exact hslot (.flat hkind rfl rfl)
  | selected =>
    obtain ⟨d, t, hd, ht⟩ := hb.selectors hkind i hi
    obtain ⟨l, hl, -, -⟩ := hb.member_bits hkind hd (List.mem_of_getElem? ht)
    exact hslot (.member hkind hd ht ⟨l, hl, rfl⟩)

/-! ## Tidy heaps -/

/-- Every value is in normal form. -/
structure Tidy (h : Heap) : Prop where
  order : h.InOrder fun _ => True
  keys : h.symbols.Bounded
  first : ∃ s, h.symbols.find? 0 = some s
  objects : ∀ {v t d}, h.typeOf v = .ok t → h.types.descriptor t = .ok d → d.kind.isVariableSize = false →
    h.Normal t v 0
  elements : ∀ {a f i}, h.IsArray a f → i < f.length → f.flags.storage ≠ .references → h.NormalSlot f i

namespace Tidy

theorem sound (ht : h.Tidy) : h.Sound := ht.order.sound

/-- Elements are in normal form, whatever they are said to be. -/
theorem element (ht : h.Tidy) (ha : h.IsArray a f) (hi : i < f.length) (hbits : h.ElementBits f i t n) :
    h.Normal t f.buffer (refSize + f.slotOffset i) ∧
      ∀ j, n ≤ j → j < f.flags.slotSize → h.byte f.buffer (refSize + f.slotOffset i + j) = 0 := by
  have hstorage : f.flags.storage ≠ .references := by
    cases hbits with
    | flat storage => rw [storage]; nofun
    | member storage => rw [storage]; nofun
  obtain ⟨t', n', hbits', hnormal⟩ := ht.elements ha hi hstorage
  obtain ⟨rfl, rfl⟩ := hbits'.unique hbits
  exact hnormal

/-- Bits that may be stored are in normal form. -/
theorem provides (ht : h.Tidy) (hp : h.Provides t bs) (hl : h.registry.layouts.find? t = some l)
    (hbits : l.isBits = true) (hlen : bs.length = l.size) : h.registry.Normal h.symbols t fun j => bs[j]?.getD 0 := by
  have hs := ht.sound
  have hplace {v : Value} {k n : Nat} (hn : n = l.size) (hnormal : h.Normal t v k) :
      h.registry.Normal h.symbols t fun j => (h.memory.window (v.offset + k) n)[j]?.getD 0 := by
    refine Registry.Normal.congr hnormal hs.registry (.refl _) (.refl _) hl fun j hj => ?_
    rw [List.getElem?_eq_getElem (by rw [Memory.length_window]; omega), Memory.getElem_window, Nat.add_assoc]
    rfl
  cases hp with
  | object type isa =>
    obtain rfl := ht.order.eq_of_isa type hl isa
    obtain ⟨d, hd, hfixed⟩ := hs.fixed_of_isBits hl hbits
    exact hplace (k := 0) (by rwa [Memory.length_window] at hlen) (ht.objects type hd hfixed)
  | field type layout field inline same =>
    subst same
    obtain ⟨d, hd, hfixed⟩ := hs.fixed_of_field layout field
    have hnormal := (ht.objects type hd hfixed).field hs.registry layout field inline
    simp only [Nat.zero_add] at hnormal
    exact hplace (by rwa [Memory.length_window] at hlen) hnormal
  | element array index flat same =>
    exact hplace (by rwa [Memory.length_window] at hlen) (ht.element array index (.flat flat same rfl)).1
  | member array index selected union selector size =>
    exact hplace (by rwa [Memory.length_window] at hlen)
      (ht.element array index (.member selected union selector size)).1
  | @scalar k x table bs same encoded =>
    subst same
    rw [hs.registry.primitive_layout (Layouts.descriptor_scalar hs.registry.types k) rfl hl] at hlen
    refine .scalar hs.registry fun _ => ⟨x, ?_⟩
    have hlen : bs.length = (UInt64.ofNat k.size).toNat := hlen
    rw [Layouts.toNat_scalar_size] at hlen
    rw [cut_list hlen]
    exact ScalarKind.decode_of_encode encoded ht.keys

/-! ## What keeps a heap tidy -/

/-- Values change only where something is written, so only those are of interest. -/
theorem of_keeps (ht : h.Tidy) (horder : h'.InOrder fun _ => True) (hk : Keeps S h h')
    (hsymbols : h.symbols.Grows h'.symbols)
    (hobjects : ∀ {v t d}, h'.typeOf v = .ok t → h'.types.descriptor t = .ok d → d.kind.isVariableSize = false →
      (h.Live v → ∃ j, S v j) → h'.Normal t v 0)
    (helements : ∀ {a f i}, h'.IsArray a f → i < f.length → f.flags.storage ≠ .references →
      (h.IsArray a f → ∃ j, S f.buffer j) → h'.NormalSlot f i) : h'.Tidy where
  order := horder
  keys := hsymbols.bounded ht.keys
  first := by
    obtain ⟨s, hs⟩ := ht.first
    exact ⟨s, hsymbols.find? hs⟩
  objects {v t d} htype hd hfixed := by
    by_cases hsame : h.Live v ∧ ∀ j, ¬S v j
    · have hs := ht.sound
      have htype := hs.typeOf_of_live hk.toExtends hsame.1 htype
      obtain ⟨d', -, hd', -, -⟩ := hs.exists_shaped htype
      cases hd.symm.trans (hk.descriptor hd')
      obtain ⟨l, hl, hsize⟩ := hs.fixed_layout htype hd' hfixed
      exact (ht.objects htype hd' hfixed).congr hs hl hk.registry hsymbols fun j hj =>
        hk.bytes hsize (by omega) (hsame.2 _)
    · refine hobjects htype hd hfixed fun hlive => ?_
      by_contra hnone
      exact hsame ⟨hlive, fun j hj => hnone ⟨j, hj⟩⟩
  elements {a f i} ha hi hstorage := by
    by_cases hsame : h.IsArray a f ∧ ∀ j, ¬S f.buffer j
    · have hs := ht.sound
      have hb := (hs.arrays hsame.1).body
      exact (ht.elements hsame.1 hi hstorage).of_same hs hb hsymbols
        (hk.sameSlot hs hb (Nat.lt_of_lt_of_le hi hb.length_le) fun _ _ => hsame.2 _)
    · refine helements ha hi hstorage fun harray => ?_
      by_contra hnone
      exact hsame ⟨harray, fun j hj => hnone ⟨j, hj⟩⟩

/-- Payloads change. -/
theorem of_rewrites (ht : h.Tidy) (horder : h'.InOrder fun _ => True) (hr : Rewrites S h h')
    (hsymbols : h.symbols.Grows h'.symbols)
    (hobjects : ∀ {v j t d}, S v j → h.typeOf v = .ok t → h.types.descriptor t = .ok d →
      d.kind.isVariableSize = false → h'.Normal t v 0)
    (helements : ∀ {a f i}, h'.IsArray a f → i < f.length → f.flags.storage ≠ .references →
      (∃ j, S a j) ∨ h.IsArray a f ∧ (∃ j, S f.buffer j) → h'.NormalSlot f i) : h'.Tidy := by
  refine ht.of_keeps horder hr.keeps hsymbols (fun {v t d} htype hd hfixed hlive => ?_)
    fun {a f i} ha hi hstorage harray => ?_
  · have htype := hr.typeOf_iff.1 htype
    rw [hr.types_eq] at hd
    obtain ⟨j, hj⟩ := hlive (live_of_typeOf htype)
    exact hobjects hj htype hd hfixed
  · refine helements ha hi hstorage ?_
    by_cases hwords : ∃ j, S a j
    · exact .inl hwords
    · have ha := hr.isArray_of ht.sound ha fun j hj => hwords ⟨j, hj⟩
      exact .inr ⟨ha, harray ha⟩

/-- An object changes that is no array, and no buffer of one. -/
theorem of_object (ht : h.Tidy) (horder : h'.InOrder fun _ => True) (hr : Rewrites (fun x _ => x = w) h h')
    (hsymbols : h.symbols.Grows h'.symbols) (hw : h.typeOf w = .ok t) (hd : h.types.descriptor t = .ok d)
    (hkind : d.kind ≠ .array) (hunused : ∀ {a f}, h.IsArray a f → f.buffer ≠ w)
    (hvalue : d.kind.isVariableSize = false → h'.Normal t w 0) : h'.Tidy := by
  refine ht.of_rewrites horder hr hsymbols (fun {v j t' d'} heq htype hd' hfixed => ?_) fun ha _ _ hor => ?_
  · subst heq
    cases hw.symm.trans htype
    cases hd.symm.trans hd'
    exact hvalue hfixed
  · rcases hor with ⟨-, heq⟩ | ⟨ha, -, heq⟩
    · obtain ⟨rank, harray⟩ := ha.type
      exact absurd heq (Sound.ne_of_kind (hr.arrayType_iff.1 harray) hw hd hkind)
    · exact absurd heq (hunused ha)

/-- Slots of an array change. -/
theorem of_slots (ht : h.Tidy) (horder : h'.InOrder fun _ => True) (ha : h.IsArray a f)
    (hr : Rewrites (Cells f lo hi) h h') (hsymbols : h.symbols.Grows h'.symbols) (hhi : hi ≤ f.capacity)
    (hslots : ∀ i, lo ≤ i → i < hi → i < f.length → f.flags.storage ≠ .references → h'.NormalSlot f i) : h'.Tidy := by
  have hs := ht.sound
  have hb := (hs.arrays ha).body
  have hslot (i : Nat) (hi' : i < f.length) (hstorage : f.flags.storage ≠ .references) : h'.NormalSlot f i := by
    have hcapacity := Nat.lt_of_lt_of_le hi' hb.length_le
    by_cases hin : lo ≤ i ∧ i < hi
    · exact hslots i hin.1 hin.2 hi' hstorage
    · refine (ht.elements ha hi' hstorage).of_same hs hb hsymbols (hr.keeps.sameSlot hs hb hcapacity ?_)
      rintro j hj ⟨-, m, heq, hm⟩
      cases Nat.add_left_cancel heq
      exact hin (hj.bounds hm hcapacity hhi)
  refine ht.of_rewrites horder hr hsymbols (fun {v j t d} hcell htype hd hfixed => ?_)
    fun {b g i} hg' hi hstorage hor => ?_
  · obtain ⟨rfl, -⟩ := hcell
    cases hb.buffer.symm.trans htype
    cases hs.descriptor_buffer.symm.trans hd
    cases hfixed
  · rcases hor with ⟨-, rfl, -⟩ | ⟨hg, -, heq, -⟩
    · obtain ⟨rank, harray⟩ := hg'.type
      exact absurd rfl (hs.ne_buffer (hr.arrayType_iff.1 harray) hb.buffer)
    · -- Whoever shares the buffer describes it alike.
      have hbody : f.SameBody g := by
        rcases hs.sharing ha hg heq with rfl | hshares
        · cases ha.unique hg
          exact ⟨rfl, rfl, rfl, rfl, rfl, rfl⟩
        · exact hshares.body
      have hb' := (horder.sound.arrays hg').body.sameBody hbody.symm
      rw [hbody.storage] at hstorage
      rw [hbody.length] at hi
      exact (hslot i hi hstorage).sameBody horder.sound hb' hbody

end Tidy

end TypedHeap.Heap
