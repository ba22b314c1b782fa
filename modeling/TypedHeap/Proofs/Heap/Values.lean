import TypedHeap.Proofs.Heap.Tidy
import TypedHeap.Proofs.Object.Contents

/-!
# Values wherever they lie

In a tidy heap, whatever bytes are taken for a value of a type are a value in normal form of that type. So bytes
compare as leaves do, and a scalar can be read wherever its type says that there is one.

* `Heap.ValueAt`: a value of a type at an address.
* `Heap.Canonical`: bytes that belong to no leaf are zero, and values are equal if their leaves are.
* `Heap.Readable`: scalars of a kind can be read.

Main results: `ValueAt.normal`, `Tidy.canonical`, `Tidy.readable`.
-/

namespace TypedHeap

open TypedHeap.Action (runOn_bind_error runOn_look)
open Heap

/-! ## Types of scalars -/

namespace Registry

variable {r : Registry} {k : ScalarKind} {l : Layout} {e : FieldLayout} {n : Nat} {b : Bool}

/-- Scalars are stored inline. -/
theorem Inline.eq_true_of_scalar (h : r.Inline k.type b) (hr : r.Sound) : b = true := by
  obtain ⟨d, hd, h⟩ := h
  cases (Layouts.descriptor_scalar hr.types k).symm.trans hd
  rcases h with ⟨houtside, -⟩ | ⟨-, l, hl, rfl⟩
  · cases houtside
  · rw [hr.primitive_layout hd rfl hl]
    rfl

/-- A field with the type of a scalar is the scalar. -/
theorem Sound.inline_scalar (hr : r.Sound) {t : TypeRef} (hl : r.layouts.find? t = some l) (he : e ∈ l.fields)
    (htype : e.type = k.type) : e.isInline = true ∧ e.size = k.size := by
  obtain ⟨s, hs, hplaced⟩ := hr.layouts.slotFor hl he
  rw [htype] at hs
  cases hs with
  | reference outside => cases Inline.eq_true_of_scalar outside hr
  | inline inline found =>
    rw [hr.primitive_layout (Layouts.descriptor_scalar hr.types k) rfl found] at hplaced
    exact ⟨hplaced.isInline_eq, hplaced.size_eq.trans (Layouts.toNat_scalar_size k)⟩

/-- Slots for scalars are filled by them. -/
theorem Stored.flat_of_scalar {storage : ElementStorage} (h : r.Stored k.type storage n) (hr : r.Sound) :
    storage = .flat := by
  have hflat : ¬r.NotFlat k.type := by
    rintro (houtside | ⟨-, m, ⟨l, hl, rfl⟩, hlarge⟩)
    · cases Inline.eq_true_of_scalar houtside hr
    · rw [hr.primitive_layout (Layouts.descriptor_scalar hr.types k) rfl hl] at hlarge
      refine hlarge ?_
      cases k <;> decide
  cases h with
  | flat => rfl
  | selected wide | references wide => exact absurd wide hflat

end Registry

/-- Four zeros are no type, and any other four bytes are one. -/
theorem ScalarKind.decode_dataType {σ : SymbolTable} {bs : List UInt8} (hlen : bs.length = dataType.size) :
    (∃ t, dataType.decode σ bs = .ok t) ↔ bs ≠ List.replicate dataType.size 0 := by
  have hlt : LittleEndian.ofBytes bs < 0x100000000 := by
    have hlt := LittleEndian.ofBytes_lt bs
    rw [hlen] at hlt
    exact hlt
  have hzero : LittleEndian.ofBytes bs = 0 ↔ bs = List.replicate dataType.size 0 := by
    constructor
    · intro hzero
      rw [← LittleEndian.toBytes_ofBytes bs, hzero, LittleEndian.toBytes_zero, hlen]
    · rintro rfl
      rfl
  have hdecode : dataType.decode σ bs = dataType.ofWord σ (LittleEndian.ofBytes bs) := by
    rw [decode, if_neg (by omega), List.take_of_length_le (Nat.le_of_eq hlen)]
  rw [hdecode, ne_eq, ← hzero]
  constructor
  · rintro ⟨t, ht⟩ hnull
    rw [hnull] at ht
    cases ht
  · intro hnull
    have hindex : TypeRef.ofIndex? (LittleEndian.ofBytes bs) = some ⟨_, Nat.pos_of_ne_zero hnull, hlt⟩ :=
      dif_pos ⟨Nat.pos_of_ne_zero hnull, hlt⟩
    refine ⟨⟨_, Nat.pos_of_ne_zero hnull, hlt⟩, ?_⟩
    simp only [ofWord, hindex]

/-- A datum is a value of a type: a reference to an object of the type, or bits of it. -/
inductive Datum.HasType (h : Heap) (t : TypeRef) : Datum → Prop
  | ref {x : Value} (type : h.typeOf x = .ok t) : HasType h t (.ref x)
  | bits {bs : List UInt8} : HasType h t (.bits t bs)

namespace Heap

variable {h : Heap} {a v x : Value} {f : ArrayInfo} {t : TypeRef} {l : Layout} {e : FieldLayout} {d : Datum}
  {i j n p q : Nat} {k : ScalarKind}

/-! ## Values -/

/-- There is a value of a type at an address: an object of a fixed size, an element in place, or an inline field
of a value. -/
inductive ValueAt (h : Heap) : TypeRef → Nat → Prop
  | object {v : Value} {t : TypeRef} {d : Descriptor} (type : h.typeOf v = .ok t)
      (descriptor : h.types.descriptor t = .ok d) (fixed : d.kind.isVariableSize = false) : ValueAt h t v.offset
  | element {a : Value} {f : ArrayInfo} {i n : Nat} {t : TypeRef} (info : ArrayObject.info h a = .ok f)
      (index : i < f.length) (bits : h.ElementBits f i t n) :
      ValueAt h t (f.buffer.offset + (refSize + f.slotOffset i))
  | field {t : TypeRef} {p : Nat} {l : Layout} {e : FieldLayout} (outer : ValueAt h t p)
      (layout : h.registry.layouts.find? t = some l) (field : e ∈ l.fields) (inline : e.isInline = true) :
      ValueAt h e.type (p + e.offset)

/-- A value has a layout, lies in the memory in use and is in normal form. -/
theorem ValueAt.normal (hv : h.ValueAt t p) (ht : h.Tidy) : ∃ l, h.registry.layouts.find? t = some l ∧
    p + l.size ≤ h.top ∧ h.registry.Normal h.symbols t fun k => h.memory.get (p + k) := by
  have hs := ht.sound
  induction hv with
  | object type descriptor fixed =>
    obtain ⟨l, hl, hsize⟩ := hs.fixed_layout type descriptor fixed
    have hnormal := ht.objects type descriptor fixed
    simp only [Heap.Normal, Heap.byte, Nat.zero_add] at hnormal
    exact ⟨l, hl, hs.end_le_top hsize, hnormal⟩
  | @element a f i n t info index bits =>
    have ha := hs.info_iff.1 info
    obtain ⟨l, hl, -, hsize, hle⟩ := bits.layout (hs.arrays ha).body
    have hend := ArrayObject.slot_end_le hs ha index
    have hnormal := (ht.element ha index bits).1
    simp only [Heap.Normal, Heap.byte, ← Nat.add_assoc] at hnormal
    simp only [← Nat.add_assoc]
    exact ⟨l, hl, by omega, hnormal⟩
  | field outer layout field inline ih =>
    obtain ⟨l, hl, hend, hnormal⟩ := ih
    cases layout.symm.trans hl
    obtain ⟨l', hl', -, hsize⟩ := hs.registry.layouts.inline hl field inline
    have hfield := hs.registry.layouts.end_le hl field
    have hinner := hnormal.field hs.registry hl field inline
    simp only [← Nat.add_assoc] at hinner
    exact ⟨l', hl', by omega, hinner⟩

/-! ## Canonical bytes -/

/-- Bytes that belong to no leaf are zero. -/
structure Canonical (h : Heap) : Prop where
  /-- Values have a layout and lie in the memory in use. -/
  sized : ∀ {t p}, h.ValueAt t p → ∃ l, h.registry.layouts.find? t = some l ∧ p + l.size ≤ h.top
  /-- The payload of an object of a fixed size is a value. -/
  payload : ∀ {v t l d}, h.typeOf v = .ok t → h.types.descriptor t = .ok d → d.kind.isVariableSize = false →
    h.registry.layouts.find? t = some l → h.payload v = .ok (h.memory.window v.offset l.size)
  padding : ∀ {t p l k}, h.ValueAt t p → h.registry.layouts.find? t = some l → k < l.size →
    ¬h.registry.Covered t k → h.memory.get (p + k) = 0
  /-- A slot in use holds the bits of a value, and zeros behind them. -/
  behind : ∀ {a f i}, ArrayObject.info h a = .ok f → f.flags.storage ≠ .references → i < f.length →
    ∃ t n, h.ElementBits f i t n ∧ n ≤ f.flags.slotSize ∧
      ∀ k, n ≤ k → k < f.flags.slotSize → h.memory.get (f.buffer.offset + (refSize + f.slotOffset i) + k) = 0
  /-- A slot that is not in use holds zeros. -/
  unused : ∀ {a f i k}, ArrayObject.info h a = .ok f → f.length ≤ i → i < f.capacity → k < f.flags.slotSize →
    h.memory.get (f.buffer.offset + (refSize + f.slotOffset i) + k) = 0
  /-- Values of one type have equal bytes if their leaves have. -/
  equal_iff : ∀ {t p q l}, h.ValueAt t p → h.ValueAt t q → h.registry.layouts.find? t = some l →
    (h.memory.window p l.size = h.memory.window q l.size ↔
      ∀ off n leaf, h.registry.Leaf t off n leaf → h.memory.window (p + off) n = h.memory.window (q + off) n)

theorem window_eq_iff {m : Memory} :
    m.window p n = m.window q n ↔ ∀ k, k < n → m.get (p + k) = m.get (q + k) := by
  simp only [Memory.window, List.map_inj_left, List.mem_range]

theorem ValueAt.equal_iff (hp : h.ValueAt t p) (hq : h.ValueAt t q) (ht : h.Tidy)
    (hl : h.registry.layouts.find? t = some l) : h.memory.window p l.size = h.memory.window q l.size ↔
      ∀ off n leaf, h.registry.Leaf t off n leaf → h.memory.window (p + off) n = h.memory.window (q + off) n := by
  obtain ⟨-, -, -, hpn⟩ := hp.normal ht
  obtain ⟨-, -, -, hqn⟩ := hq.normal ht
  constructor
  · intro heq off n leaf hleaf
    have hend := hleaf.end_le ht.sound.registry hl
    refine window_eq_iff.2 fun k hk => ?_
    rw [Nat.add_assoc, Nat.add_assoc]
    exact window_eq_iff.1 heq (off + k) (by omega)
  · intro hleaves
    refine window_eq_iff.2 fun k hk => ?_
    by_cases hcovered : h.registry.Covered t k
    · obtain ⟨off, n, leaf, hleaf, hlo, hhi⟩ := hcovered
      obtain ⟨j, rfl⟩ := Nat.exists_eq_add_of_le hlo
      rw [← Nat.add_assoc, ← Nat.add_assoc]
      exact window_eq_iff.1 (hleaves off n leaf hleaf) j (by omega)
    · exact (hpn.padding hl hk hcovered).trans (hqn.padding hl hk hcovered).symm

theorem Tidy.canonical (ht : h.Tidy) : h.Canonical where
  sized hv := by
    obtain ⟨l, hl, hend, -⟩ := hv.normal ht
    exact ⟨l, hl, hend⟩
  payload htype hd hfixed hl := by
    obtain ⟨l', hl', hsize⟩ := ht.sound.fixed_layout htype hd hfixed
    cases hl.symm.trans hl'
    exact ht.sound.payload_eq hsize
  padding hv hl hk hpadding := by
    obtain ⟨-, -, -, hnormal⟩ := hv.normal ht
    exact hnormal.padding hl hk hpadding
  behind {a f i} hf hstorage hi := by
    have ha := ht.sound.info_iff.1 hf
    obtain ⟨t, n, hbits, -, hzero⟩ := ht.elements ha hi hstorage
    refine ⟨t, n, hbits, hbits.le (ht.sound.arrays ha).body, fun k hn hk => ?_⟩
    rw [Nat.add_assoc]
    exact hzero k hn hk
  unused {a f i k} hf hlen hi hk := by
    have hb := (ht.sound.arrays (ht.sound.info_iff.1 hf)).body
    have hmono := f.slotOffset_mono hlen
    have hend := f.slot_end_le hi
    rw [Nat.add_assoc, Nat.add_assoc]
    exact hb.vacant _ (.inl ⟨by omega, by omega⟩)
  equal_iff hp hq hl := hp.equal_iff hq ht hl

/-! ## Scalars -/

/-- Scalars of a kind can be read, wherever their type says that there is one: in a box, in a field or in an
element, in place or behind a reference. -/
structure Readable (h : Heap) (k : ScalarKind) : Prop where
  box : ∀ {v}, h.typeOf v = .ok k.type → ∃ x, Box.read k h v = .ok x
  field : ∀ {v i d}, ((Record.read v i).runOn h).1 = .ok d → d.HasType h k.type →
    ∃ x, ((Record.readScalar k v i).runOn h).1 = .ok x
  /-- A field that is declared with the type of the kind holds a scalar. -/
  declaredField : ∀ {v i e}, ((Record.fieldLayout v i).runOn h).1 = .ok e → e.type = k.type →
    ∃ x, ((Record.readScalar k v i).runOn h).1 = .ok x
  element : ∀ {a i d}, ((ArrayObject.get a i).runOn h).1 = .ok d → d.HasType h k.type →
    ∃ x, ((ArrayObject.getScalar k a i).runOn h).1 = .ok x
  /-- An array of elements of the type holds a scalar at every index. -/
  declaredElement : ∀ {a f i}, ArrayObject.info h a = .ok f → f.elem = k.type → i < f.length →
    ∃ x, ((ArrayObject.getScalar k a i).runOn h).1 = .ok x
  /-- So does an array of elements of a union, where a selector names the type. -/
  selected : ∀ {a f i d}, ArrayObject.info h a = .ok f → i < f.length → f.flags.storage = .selected →
    h.types.descriptor f.elem = .ok d →
    d.memberTypes[(h.byte f.buffer (refSize + f.selectorOffset i)).toNat]? = some k.type →
    ∃ x, ((ArrayObject.getScalar k a i).runOn h).1 = .ok x

theorem ValueAt.exists_decode (hv : h.ValueAt k.type p) (ht : h.Tidy) (hk : k ≠ .dataType) :
    ∃ x, k.decode h.symbols (h.memory.window p k.size) = .ok x := by
  obtain ⟨-, -, -, hnormal⟩ := hv.normal ht
  obtain ⟨x, hx⟩ := hnormal.scalars (.primitive (Layouts.descriptor_scalar ht.sound.registry.types k) rfl) hk
  simp only [cut, Nat.zero_add] at hx
  exact ⟨x, hx⟩

/-- Bytes that are taken for a scalar stand for one, except that zeros stand for no type. -/
theorem ValueAt.decode_iff (hv : h.ValueAt k.type p) (ht : h.Tidy) :
    (∃ x, k.decode h.symbols (h.memory.window p k.size) = .ok x) ↔
      (k = .dataType → h.memory.window p k.size ≠ List.replicate k.size 0) := by
  by_cases hk : k = .dataType
  · subst hk
    rw [ScalarKind.decode_dataType (Memory.length_window _ _ _)]
    exact ⟨fun hne _ => hne, fun hne => hne rfl⟩
  · exact iff_of_true (hv.exists_decode ht hk) fun heq => absurd heq hk

namespace Tidy

theorem readBox (ht : h.Tidy) (hk : k ≠ .dataType) (hv : h.typeOf v = .ok k.type) :
    ∃ x, Box.read k h v = .ok x := by
  have hvalue : h.ValueAt k.type v.offset :=
    .object hv (Layouts.descriptor_scalar ht.sound.registry.types k) rfl
  obtain ⟨x, hx⟩ := hvalue.exists_decode ht hk
  have hbox : h.Boxes v k x := ⟨hv, hx⟩
  exact ⟨x, hbox.read_eq ht.sound⟩

/-- A datum that was found somewhere. -/
theorem readDatum (ht : h.Tidy) (hk : k ≠ .dataType) (hd : d.HasType h k.type)
    (hbits : ∀ bs, d = .bits k.type bs → ∃ p, h.ValueAt k.type p ∧ bs = h.memory.window p k.size) :
    ∃ x, d.read k h = .ok x := by
  cases hd with
  | ref type => exact ht.readBox hk type
  | bits =>
    obtain ⟨p, hp, rfl⟩ := hbits _ rfl
    obtain ⟨x, hx⟩ := hp.exists_decode ht hk
    exact ⟨x, (if_pos rfl).trans hx⟩

/-! ### Fields -/

/-- A field that is found is one of a layout that is remembered. -/
theorem exists_layout_of_field (ht : h.Tidy) (he : ((Record.fieldLayout v i).runOn h).1 = .ok e) :
    ∃ t l, h.typeOf v = .ok t ∧ h.registry.layouts.find? t = some l ∧ l.field i = .ok e := by
  rcases Record.fieldLayout_cases ht.sound v i with ⟨t, l, -, htype, hl, -, -⟩ | ⟨err, h', hrun, -⟩
  · rw [Record.runOn_fieldLayout ht.sound htype hl] at he
    exact ⟨t, l, htype, hl, he⟩
  · rw [hrun] at he
    cases he

theorem exists_field_of_read (ht : h.Tidy) (hd : ((Record.read v i).runOn h).1 = .ok d) :
    ∃ t l e, h.typeOf v = .ok t ∧ h.registry.layouts.find? t = some l ∧ l.field i = .ok e ∧
      Record.datumAt h v e = .ok d := by
  rcases Record.fieldLayout_cases ht.sound v i with ⟨t, l, -, htype, hl, -, -⟩ | ⟨err, h', hrun, -⟩
  · rw [Record.runOn_read ht.sound htype hl] at hd
    obtain ⟨e, he, hdatum⟩ := bind_eq_ok.1 hd
    exact ⟨t, l, e, htype, hl, he, hdatum⟩
  · unfold Record.read at hd
    rw [runOn_bind_error hrun] at hd
    cases hd

/-- What a field with a known place holds. -/
theorem readField (ht : h.Tidy) (hk : k ≠ .dataType) (htype : h.typeOf v = .ok t)
    (hl : h.registry.layouts.find? t = some l) (he : l.field i = .ok e) (hd : Record.datumAt h v e = .ok d)
    (hmatch : d.HasType h k.type) : ∃ x, ((Record.readScalar k v i).runOn h).1 = .ok x := by
  have hs := ht.sound
  have hmem := Record.mem_of_field he
  have hread : ∃ x, d.read k h = .ok x := by
    refine ht.readDatum hk hmatch fun bs heq => ?_
    subst heq
    cases hin : e.isInline with
    | false =>
      rw [Record.datumAt_outside hs htype hl hmem hin] at hd
      split at hd <;> cases hd
    | true =>
      rw [Record.datumAt_inline hs htype hl hmem hin] at hd
      obtain ⟨htypes, rfl⟩ := Datum.bits.inj (Except.ok.inj hd)
      obtain ⟨d, hdesc, hfixed⟩ := hs.fixed_of_field hl hmem
      have hvalue : h.ValueAt e.type (v.offset + e.offset) := .field (.object htype hdesc hfixed) hl hmem hin
      rw [htypes] at hvalue
      exact ⟨_, hvalue, by rw [(hs.registry.inline_scalar hl hmem htypes).2]⟩
  obtain ⟨x, hx⟩ := hread
  refine ⟨x, ?_⟩
  rw [Record.runOn_readScalar hs htype hl, he]
  exact bind_eq_ok.2 ⟨d, hd, hx⟩

/-! ### Elements -/

/-- An element that is found is what a slot in use stands for. -/
theorem exists_shows_of_get (ht : h.Tidy) (hd : ((ArrayObject.get a i).runOn h).1 = .ok d) :
    ∃ f, ArrayObject.info h a = .ok f ∧ i < f.length ∧ h.Shows f i (some d) := by
  have hs := ht.sound
  cases hf : ArrayObject.info h a with
  | error err =>
    unfold ArrayObject.get at hd
    rw [runOn_bind_error (by rw [runOn_look, hf])] at hd
    cases hd
  | ok f =>
    have ha := hs.info_iff.1 hf
    rcases Nat.lt_or_ge i f.length with hi | hi
    · obtain ⟨shown, hshown⟩ := exists_shows (hs.arrays ha).body hi
      rw [ArrayObject.runOn_get hs ha hi hshown] at hd
      cases shown with
      | none => cases hd
      | some d' =>
        cases hd
        exact ⟨f, rfl, hi, hshown⟩
    · rw [ArrayObject.runOn_get_error hs ha hi] at hd
      cases hd

/-- What an index in use stands for. -/
theorem readElement (ht : h.Tidy) (hk : k ≠ .dataType) (hf : ArrayObject.info h a = .ok f) (hi : i < f.length)
    (hd : h.Shows f i (some d)) (hmatch : d.HasType h k.type) :
    ∃ x, ((ArrayObject.getScalar k a i).runOn h).1 = .ok x := by
  have hs := ht.sound
  have ha := hs.info_iff.1 hf
  have hread : ∃ x, d.read k h = .ok x := by
    refine ht.readDatum hk hmatch fun bs heq => ?_
    subst heq
    generalize hshown : some (Datum.bits k.type bs) = shown at hd
    cases hd with
    | reference =>
      cases hslot : h.slot f.buffer (refSize + f.slotOffset i) <;> rw [hslot] at hshown <;> cases hshown
    | bits bits =>
      cases hshown
      obtain ⟨l, hl, -, hsize, -⟩ := bits.layout (hs.arrays ha).body
      rw [hs.registry.primitive_layout (Layouts.descriptor_scalar hs.registry.types k) rfl hl] at hsize
      exact ⟨_, .element hf hi bits, by rw [← hsize]; exact congrArg _ (Layouts.toNat_scalar_size k)⟩
  obtain ⟨x, hx⟩ := hread
  refine ⟨x, ?_⟩
  have hget : (ArrayObject.get a i).runOn h = (.ok d, h) := ArrayObject.runOn_get hs ha hi hd
  rw [ArrayObject.getScalar, Action.runOn_bind_asked hget fun d h => d.read k h]
  exact hx

/-- Bits of the right type. -/
theorem readBits (ht : h.Tidy) (hk : k ≠ .dataType) (hf : ArrayObject.info h a = .ok f) (hi : i < f.length)
    (hbits : h.ElementBits f i k.type n) : ∃ x, ((ArrayObject.getScalar k a i).runOn h).1 = .ok x :=
  ht.readElement hk hf hi (.bits hbits) .bits

theorem readable (ht : h.Tidy) (hk : k ≠ .dataType) : h.Readable k where
  box := ht.readBox hk
  field {v i d} hread hmatch := by
    obtain ⟨t, l, e, htype, hl, he, hd⟩ := ht.exists_field_of_read hread
    exact ht.readField hk htype hl he hd hmatch
  declaredField {v i e} hfield hdeclared := by
    obtain ⟨t, l, htype, hl, he⟩ := ht.exists_layout_of_field hfield
    have hmem := Record.mem_of_field he
    have hinline := (ht.sound.registry.inline_scalar hl hmem hdeclared).1
    have hdatum := Record.datumAt_inline ht.sound htype hl hmem hinline
    rw [hdeclared] at hdatum
    exact ht.readField hk htype hl he hdatum .bits
  element {a i d} hget hmatch := by
    obtain ⟨f, hf, hi, hd⟩ := ht.exists_shows_of_get hget
    exact ht.readElement hk hf hi hd hmatch
  declaredElement {a f i} hf helem hi := by
    have hstored := (ht.sound.arrays (ht.sound.info_iff.1 hf)).body.stored
    rw [helem] at hstored
    exact ht.readBits hk hf hi (.flat (hstored.flat_of_scalar ht.sound.registry) helem rfl)
  selected {a f i d} hf hi hstorage hd hmember := by
    have hb := (ht.sound.arrays (ht.sound.info_iff.1 hf)).body
    obtain ⟨l, hl, -, -⟩ := hb.member_bits hstorage hd (List.mem_of_getElem? hmember)
    exact ht.readBits hk hf hi (.member hstorage hd hmember ⟨l, hl, rfl⟩)

end Tidy

end Heap

end TypedHeap
