import TypedHeap.Proofs.Array.Words
import TypedHeap.Proofs.Heap.Allocation
import TypedHeap.Proofs.Heap.Barrier
import TypedHeap.Proofs.Heap.Nesting

/-!
# What can happen to a heap

Every operation is made of few kinds of steps. A step that stores something says where, under which
checks, and what the heap is like afterwards; `S` names the bytes of payloads that steps may touch.

* `Heap.Provides`: bits that may stand where a value of a type is stored.
* `Heap.Step S`, `Heap.Path S`: one step, and any number of them.
* `Heap.Move S`, `Heap.Trail S`: the same, with changes of the collector's flags between them.
* `Heap.Mutates S`: steps, or a report to the barrier.

Main results: `Step.sound`, `Step.effect`, `Step.keeps`, `Step.grows`, `Step.ages`, and from them
`Trail.sound`, `Trail.keeps`, `Trail.grows`, `Path.ages`.
-/

namespace TypedHeap.Heap

open ArrayObject

variable {h h' h'' : Heap} {a v w x : Value} {f g : ArrayInfo} {s t : TypeRef} {d : Descriptor}
  {l : Layout} {e : FieldLayout} {i k n : Nat} {S : Value → Nat → Prop} {bs : List UInt8}

/-! ## Steps -/

/-- Bits that may stand where a value of a type is stored: those of an object, of a field, of an
element, or of a scalar. -/
inductive Provides (h : Heap) (t : TypeRef) : List UInt8 → Prop
  | object {x : Value} {s : TypeRef} {n : Nat} (type : h.typeOf x = .ok s)
      (isa : h.types.isa s t = .ok true) : Provides h t (h.memory.window x.offset n)
  | field {v : Value} {s : TypeRef} {l : Layout} {e : FieldLayout} (type : h.typeOf v = .ok s)
      (layout : h.registry.layouts.find? s = some l) (field : e ∈ l.fields) (inline : e.isInline = true)
      (same : e.type = t) : Provides h t (h.memory.window (v.offset + e.offset) e.size)
  | element {a : Value} {f : ArrayInfo} {i : Nat} (array : h.IsArray a f) (index : i < f.length)
      (flat : f.flags.storage = .flat) (same : f.elem = t) :
      Provides h t (h.memory.window (f.buffer.offset + (refSize + f.slotOffset i)) f.flags.slotSize)
  | member {a : Value} {f : ArrayInfo} {d : Descriptor} {i n : Nat} (array : h.IsArray a f)
      (index : i < f.length) (selected : f.flags.storage = .selected)
      (union : h.types.descriptor f.elem = .ok d)
      (selector : d.memberTypes[(h.byte f.buffer (refSize + f.selectorOffset i)).toNat]? = some t)
      (size : h.registry.Sized t n) :
      Provides h t (h.memory.window (f.buffer.offset + (refSize + f.slotOffset i)) n)
  | scalar {k : ScalarKind} {x : k.Carrier} {table : SymbolTable} {bs : List UInt8} (same : k.type = t)
      (encoded : (k.encode x).runOn table = (.ok bs, h.symbols)) : Provides h t bs

/-- One step. The bytes that it may change are those that `S` names. -/
inductive Step (S : Value → Nat → Prop) (h : Heap) : Heap → Prop
  /-- Types and layouts are added to the registry. -/
  | learns {h' : Heap} (learns : h.Learns h') : Step S h h'
  /-- A symbol gets a key. -/
  | symbol (s : Symbol) : Step S h { h with symbols := ((SymbolTable.intern s).runOn h.symbols).2 }
  /-- A new object. -/
  | allocated {t : TypeRef} {d : Descriptor} {extra n : Nat} {v : Value}
      (descriptor : h.types.descriptor t = .ok d) (size : h.SizeFor d extra n)
      (start : v.offset = h.nextStart) (room : v.offset + n ≤ h.limit) :
      Step S h (h.allocated v d extra n)
  /-- The bits of an object that is nothing else. -/
  | bits {v : Value} {t : TypeRef} {l : Layout} {bs : List UInt8} (type : h.typeOf v = .ok t)
      (layout : h.registry.layouts.find? t = some l) (isBits : l.isBits = true)
      (length : bs.length = l.size) (provided : h.Provides t bs) (allowed : ∀ j, S v j) :
      Step S h (h.put v 0 bs)
  /-- The bytes of a string. -/
  | text {v : Value} {bs : List UInt8} (type : h.typeOf v = .ok Builtin.string)
      (length : bs.length = h.word v 0) (allowed : ∀ j, S v j) : Step S h (h.put v refSize bs)
  /-- A reference in a simple vector. -/
  | vectorSlot {v : Value} {i : Nat} {x : Value} (type : h.typeOf v = .ok Builtin.simpleVector)
      (index : i < h.word v 0) (allowed : ∀ j, S v j) :
      Step S h ((h.putWord v (refSize * (i + 1)) x.offset).guarded v x)
  /-- No reference any more in a simple vector. -/
  | vectorCleared {v : Value} {i : Nat} (type : h.typeOf v = .ok Builtin.simpleVector)
      (index : i < h.word v 0) (allowed : ∀ j, S v j) : Step S h (h.putWord v (refSize * (i + 1)) 0)
  /-- A smaller length of a simple vector. -/
  | vectorLength {v : Value} {n : Nat} (type : h.typeOf v = .ok Builtin.simpleVector)
      (le : n ≤ h.word v 0) (allowed : ∀ j, S v j) : Step S h (h.putWord v 0 n)
  /-- A reference in a field. A module does not get into what lies in it. -/
  | fieldRef {v : Value} {t : TypeRef} {l : Layout} {e : FieldLayout} {x : Value} {s : TypeRef}
      (type : h.typeOf v = .ok t) (layout : h.registry.layouts.find? t = some l) (field : e ∈ l.fields)
      (outside : e.isInline = false) (child : h.typeOf x = .ok s)
      (isa : h.types.isa s e.type = .ok true)
      (outer : t = Builtin.moduleType → x ≠ v → ¬Relation.ReflTransGen h.Inside x v) (allowed : ∀ j, S v j) :
      Step S h ((h.putWord v e.offset x.offset).guarded v x)
  /-- The bits of a field. -/
  | fieldBits {v : Value} {t : TypeRef} {l : Layout} {e : FieldLayout} {bs : List UInt8}
      (type : h.typeOf v = .ok t) (layout : h.registry.layouts.find? t = some l) (field : e ∈ l.fields)
      (inline : e.isInline = true) (length : bs.length = e.size) (provided : h.Provides e.type bs)
      (allowed : ∀ j, S v j) : Step S h (h.put v e.offset bs)
  /-- The words of a young array, whose buffer is young, all zeros, and belongs to no other array. -/
  | arrayBuilt {a : Value} {f : ArrayInfo} {dims : List Nat} (type : h.ArrayType a f.elem dims.length)
      (body : h.BodySound f) (ndims : f.flags.ndims = dims.length)
      (unshared : f.flags.isShared = false) (count : elementCount dims = some f.length)
      (room : f.capacity < 0x10000000000000000) (words : ∀ d ∈ dims, d < 0x10000000000000000)
      (sole : ∀ {b g}, h.IsArray b g → g.buffer ≠ f.buffer) (young : h.Young a)
      (youngBuffer : h.Young f.buffer)
      (zero : ∀ j, j < h.word f.buffer 0 → h.byte f.buffer (refSize + j) = 0) (allowed : ∀ j, S a j) :
      Step S h (h.putArray a f dims)
  /-- The words of a young view of an array, which is marked as shared. -/
  | arrayViewed {a v : Value} {f : ArrayInfo} {dims : List Nat} (array : h.IsArray a f)
      (type : h.ArrayType v f.elem dims.length) (other : a ≠ v) (count : elementCount dims = some f.length)
      (words : ∀ d ∈ dims, d < 0x10000000000000000) (young : h.Young v) (allowed : ∀ j, S v j)
      (marked : ∀ j, flagsWord ≤ j → j < flagsWord + 8 → S a j) : Step S h (h.putView a v f dims)
  /-- An array moves to a larger young buffer that belongs to no other array and holds the same elements. -/
  | arrayMoved {a : Value} {f : ArrayInfo} {buffer : Value} {n : Nat} (array : h.IsArray a f)
      (ndims : f.flags.ndims = 1) (unshared : f.flags.isShared = false)
      (body : h.BodySound { f with buffer, capacity := n }) (room : n < 0x10000000000000000)
      (sole : ∀ {b g}, h.IsArray b g → g.buffer ≠ buffer) (young : h.Young buffer)
      (same : ∀ i, i < f.length → SameSlot h f h { f with buffer, capacity := n } i) (allowed : ∀ j, S a j) :
      Step S h ((h.putBuffer a buffer n).guarded a buffer)
  /-- An array gets another length. -/
  | arrayLength {a : Value} {f : ArrayInfo} {n : Nat} (array : h.IsArray a f) (ndims : f.flags.ndims = 1)
      (unshared : f.flags.isShared = false) (body : h.BodySound { f with length := n })
      (allowed : ∀ j, S a j) : Step S h (h.putLength a n)
  /-- The bytes of a buffer that belongs to no array yet. -/
  | buffer {v : Value} {k : Nat} {bs : List UInt8} (type : h.typeOf v = .ok Builtin.buffer)
      (unused : ∀ {a f}, h.IsArray a f → f.buffer ≠ v) (start : refSize ≤ k)
      (stop : k + bs.length ≤ refSize + h.word v 0) (allowed : ∀ j, S v j) : Step S h (h.put v k bs)
  /-- A reference in an array. -/
  | elementRef {a : Value} {f : ArrayInfo} {i : Nat} {x : Value} {s : TypeRef} (array : h.IsArray a f)
      (index : i < f.length) (storage : f.flags.storage = .references) (child : h.typeOf x = .ok s)
      (isa : h.types.isa s f.elem = .ok true) (allowed : ∀ j, S f.buffer j) :
      Step S h ((h.putWord f.buffer (refSize + f.slotOffset i) x.offset).guarded f.buffer x)
  /-- The bits of an element. -/
  | elementBits {a : Value} {f : ArrayInfo} {i : Nat} {bs : List UInt8} (array : h.IsArray a f)
      (index : i < f.length) (storage : f.flags.storage = .flat)
      (length : bs.length = f.flags.slotSize) (provided : h.Provides f.elem bs)
      (allowed : ∀ j, S f.buffer j) : Step S h (h.put f.buffer (refSize + f.slotOffset i) bs)
  /-- The bits of a member of a union, zeros up to the end of the slot, and the selector. -/
  | elementMember {a : Value} {f : ArrayInfo} {i k : Nat} {d : Descriptor} {t : TypeRef}
      {bs : List UInt8} (array : h.IsArray a f) (index : i < f.length)
      (storage : f.flags.storage = .selected) (union : h.types.descriptor f.elem = .ok d)
      (member : d.memberTypes[k]? = some t) (length : h.registry.Sized t bs.length)
      (provided : h.Provides t bs) (allowed : ∀ j, S f.buffer j) :
      Step S h (((h.put f.buffer (refSize + f.slotOffset i) bs).put f.buffer
        (refSize + f.slotOffset i + bs.length) (List.replicate (f.flags.slotSize - bs.length) 0)).put
          f.buffer (refSize + f.selectorOffset i) [UInt8.ofNat k])
  /-- The same, with zeros in the whole slot first. -/
  | elementScalar {a : Value} {f : ArrayInfo} {i k : Nat} {d : Descriptor} {t : TypeRef}
      {bs : List UInt8} (array : h.IsArray a f) (index : i < f.length)
      (storage : f.flags.storage = .selected) (union : h.types.descriptor f.elem = .ok d)
      (member : d.memberTypes[k]? = some t) (length : h.registry.Sized t bs.length)
      (provided : h.Provides t bs) (allowed : ∀ j, S f.buffer j) :
      Step S h (((h.put f.buffer (refSize + f.slotOffset i) (List.replicate f.flags.slotSize 0)).put
        f.buffer (refSize + f.slotOffset i) bs).put f.buffer (refSize + f.selectorOffset i)
          [UInt8.ofNat k])
  /-- Slots of an array are emptied. -/
  | elementsCleared {a : Value} {f : ArrayInfo} {lo hi : Nat} (array : h.IsArray a f) (le : lo ≤ hi)
      (room : hi ≤ f.capacity) (allowed : ∀ j, S f.buffer j) :
      Step S h (h.put f.buffer (refSize + f.slotOffset lo)
        (List.replicate ((hi - lo) * f.flags.slotSize) 0))
  /-- Selectors of slots that were emptied are cleared. -/
  | selectorsCleared {a : Value} {f : ArrayInfo} {lo hi : Nat} (array : h.IsArray a f) (le : lo ≤ hi)
      (room : hi ≤ f.capacity) (storage : f.flags.storage = .selected)
      (empty : ∀ j, f.slotOffset lo ≤ j → j < f.slotOffset hi → h.byte f.buffer (refSize + j) = 0)
      (allowed : ∀ j, S f.buffer j) :
      Step S h (h.put f.buffer (refSize + f.selectorOffset lo) (List.replicate (hi - lo) 0))

/-- A step, or a change of what the collector and its barrier keep: flags of objects, and the queue. -/
inductive Move (S : Value → Nat → Prop) (h h' : Heap) : Prop
  | step (step : Step S h h')
  | flags (rewrites : Rewrites (fun _ _ => False) h h') (symbols : h'.symbols = h.symbols)

/-- Any number of steps. -/
def Path (S : Value → Nat → Prop) : Heap → Heap → Prop := Relation.ReflTransGen (Step S)

/-- Any number of steps and of changes for the collector. -/
def Trail (S : Value → Nat → Prop) : Heap → Heap → Prop := Relation.ReflTransGen (Move S)

/-- What is done between two collections: any number of steps, or something that the barrier is told. -/
inductive Mutates (S : Value → Nat → Prop) (h h' : Heap) : Prop
  | path (path : Path S h h')
  | told (reports : Reports (fun _ _ => False) h h')

/-! ## What steps keep -/

namespace Sound

theorem of_symbols (hs : h.Sound) (table : SymbolTable) : ({ h with symbols := table } : Heap).Sound :=
  hs.rewrites_flags (.withSymbols _ h table)

theorem isArray_symbols (hs : h.Sound) (ha : h.IsArray a f) (table : SymbolTable) :
    ({ h with symbols := table } : Heap).IsArray a f :=
  hs.isArray_kept ha (Rewrites.withSymbols (fun _ _ => False) h table).keeps fun _ => id

theorem guarded (hs : h.Sound) (p c : Value) : (h.guarded p c).Sound :=
  hs.rewrites_flags (.guarded hs.arena p c)

theorem isArray_guarded {p c : Value} (hs : h.Sound) (ha : h.IsArray a f) :
    (h.guarded p c).IsArray a f :=
  hs.isArray_kept ha (Rewrites.guarded (S := fun _ _ => False) hs.arena p c).keeps fun _ => id

/-- Overwriting an object that is bits. -/
theorem put_bits (hs : h.Sound) (ht : h.typeOf v = .ok t) (hl : h.registry.layouts.find? t = some l)
    (hbits : l.isBits = true) (hlen : bs.length = l.size) : (h.put v 0 bs).Sound := by
  obtain ⟨d, hd, hdesc⟩ := hs.registry.layouts.describes hl
  have hkind := kind_of_isBits hdesc hbits
  refine hs.put ht hd (hs.size_bits ht hl hbits) (by omega) hkind.2 ?_ ?_ ?_
  · intro hbuffer
    rw [hbuffer] at hkind
    cases hkind.1
  · rw [hkind.1]
    nofun
  · intro l' f hl' hf hin
    rw [hl] at hl'
    cases hl'
    rw [hs.registry.layouts.inline_of_isBits hl hbits hf] at hin
    cases hin

theorem put_text (hs : h.Sound) (ht : h.typeOf v = .ok Builtin.string)
    (hlen : bs.length = h.word v 0) : (h.put v refSize bs).Sound := by
  have hd := hs.descriptor_string
  refine hs.put ht hd (hs.size_string ht) (by omega) nofun nofun (fun _ => .inl (Nat.le_refl _)) ?_
  intro l f hl hf
  obtain ⟨d, hd', hdesc⟩ := hs.registry.layouts.describes hl
  rw [show h.registry.table.descriptor Builtin.string = _ from hd] at hd'
  cases hd'
  cases (kind_of_field hdesc hf).1

/-- Overwriting slots of a simple vector, or its length by a smaller one. -/
theorem put_vector (hs : h.Sound) (ht : h.typeOf v = .ok Builtin.simpleVector)
    (hend : k + bs.length ≤ refSize + refSize * h.word v 0)
    (hlength : refSize ≤ k ∨ (h.put v k bs).word v 0 ≤ h.word v 0) : (h.put v k bs).Sound := by
  have hd := hs.descriptor_simpleVector
  obtain ⟨n, hn, hle⟩ := hs.size_vector ht
  refine hs.put ht hd hn (by omega) nofun nofun (fun _ => hlength.imp_right fun h => ⟨rfl, h⟩) ?_
  intro l f hl hf
  obtain ⟨d, hd', hdesc⟩ := hs.registry.layouts.describes hl
  rw [show h.registry.table.descriptor Builtin.simpleVector = _ from hd] at hd'
  cases hd'
  cases (kind_of_field hdesc hf).1

theorem put_item (hs : h.Sound) (ht : h.typeOf v = .ok Builtin.simpleVector) (hi : i < h.word v 0) (n : Nat) :
    (h.putWord v (refSize * (i + 1)) n).Sound := by
  refine hs.put_vector ht ?_ (.inl ?_)
  · rw [LittleEndian.length_toBytes, refSize]
    omega
  · rw [refSize]
    omega

/-- Overwriting a field: bits, or a reference that fits. -/
theorem put_field (hs : h.Sound) (ht : h.typeOf v = .ok t) (hl : h.registry.layouts.find? t = some l)
    (he : e ∈ l.fields) (hlen : bs.length = e.size)
    (hfits : e.isInline = false → (h.put v e.offset bs).Fits v e.offset e.type) :
    (h.put v e.offset bs).Sound := by
  obtain ⟨d, hd, hdesc⟩ := hs.registry.layouts.describes hl
  have hkind := kind_of_field hdesc he
  have hend := hs.registry.layouts.end_le hl he
  refine hs.put ht hd (hs.size_record ht hl he) (by omega) hkind.2 ?_ ?_ ?_
  · intro hbuffer
    rw [hbuffer] at hkind
    cases hkind.1
  · rw [hkind.1]
    nofun
  · intro l' g hl' hg hin
    rw [hl] at hl'
    cases hl'
    rcases hs.registry.layouts.separate hl he hg with rfl | hsep
    · exact .inr (hfits hin)
    · rw [Layout.Separate, hs.registry.layouts.size_reference hl hg hin] at hsep
      exact .inl (by omega)

theorem put_fieldRef (hs : h.Sound) (ht : h.typeOf v = .ok t)
    (hl : h.registry.layouts.find? t = some l) (he : e ∈ l.fields) (hout : e.isInline = false)
    (hx : h.isa x e.type = .ok true) : (h.putWord v e.offset x.offset).Sound := by
  have hsize := hs.registry.layouts.size_reference hl he hout
  have hend := hs.registry.layouts.end_le hl he
  have hn := hs.size_record ht hl he
  have hmemory := Nat.le_trans (hs.end_le_top hn) hs.arena.reach
  rw [hsize, refSize] at hend
  have hr : Rewrites (fun _ _ => True) h (h.putWord v e.offset x.offset) :=
    .putWord hs.arena hn hend fun _ _ _ => trivial
  exact hs.put_field ht hl he (by rw [hsize, LittleEndian.length_toBytes, refSize]) fun _ =>
    fits_putWord hr.extends (by omega) hx

end Sound

/-- Elements of an array are bytes of its buffer. -/
theorem Writes.put_element (hs : h.Sound) (ha : h.IsArray a f) (hi : i < f.length)
    (hend : k + bs.length ≤ f.slotOffset i + f.flags.slotSize) :
    Writes (fun w _ => w = f.buffer) h (h.put f.buffer (refSize + k) bs) := by
  have hb := (hs.arrays ha).body
  have hroom := hb.slot_end (Nat.lt_of_lt_of_le hi hb.length_le)
  exact .put hs.arena (hs.size_buffer hb.buffer) (by omega) fun _ _ _ => rfl

/-- Two writes to a slot in use, and its selector. -/
theorem Sound.put_slot {cs : List UInt8} {b : UInt8} {m : Nat} (hs : h.Sound) (ha : h.IsArray a f)
    (hi : i < f.length) (hstorage : f.flags.storage = .selected) (hb : h.registry.Selector f.elem b)
    (hend : k + bs.length ≤ f.slotOffset i + f.flags.slotSize)
    (hend' : m + cs.length ≤ f.slotOffset i + f.flags.slotSize) :
    let h' := ((h.put f.buffer (refSize + k) bs).put f.buffer (refSize + m) cs).put f.buffer
      (refSize + f.selectorOffset i) [b]
    h'.Sound ∧ Writes (fun w _ => w = f.buffer) h h' := by
  have hne : f.flags.storage ≠ .references := by
    rw [hstorage]
    nofun
  have hstep {h : Heap} {k : Nat} {bs : List UInt8} (hs : h.Sound) (ha : h.IsArray a f)
      (hend : k + bs.length ≤ f.slotOffset i + f.flags.slotSize) :
      (h.put f.buffer (refSize + k) bs).Sound ∧ (h.put f.buffer (refSize + k) bs).IsArray a f := by
    have hb := (hs.arrays ha).body
    have hroom := hb.slot_end (Nat.lt_of_lt_of_le hi hb.length_le)
    exact ⟨hs.put_element ha hi hne hend, hs.isArray_put ha (by omega)⟩
  obtain ⟨hs₁, ha₁⟩ := hstep hs ha hend
  obtain ⟨hs₂, ha₂⟩ := hstep hs₁ ha₁ hend'
  have hbody := (hs₂.arrays ha₂).body
  have hselector : f.selectorOffset i + 1 ≤ _ :=
    hbody.selector_end hstorage (Nat.le_trans hi hbody.length_le)
  refine ⟨hs₂.put_selector ha₂ hi hstorage (by simpa only [put_registry] using hb), ?_⟩
  refine ((Writes.put_element hs ha hi hend).trans (.put_element hs₁ ha₁ hi hend')).trans ?_
  exact .put hs₂.arena (hs₂.size_buffer hbody.buffer) (by rw [List.length_singleton]; omega)
    fun _ _ _ => rfl

/-- A step leads from a sound heap to a sound heap. -/
theorem Step.sound (step : Step S h h') (hs : h.Sound) : h'.Sound := by
  cases step with
  | learns learns => exact hs.learns learns
  | symbol s => exact hs.of_symbols _
  | allocated descriptor size start room => exact hs.allocated descriptor size start room
  | bits type layout isBits length provided allowed => exact hs.put_bits type layout isBits length
  | text type length allowed => exact hs.put_text type length
  | vectorSlot type index allowed => exact (hs.put_item type index _).guarded _ _
  | vectorCleared type index allowed => exact hs.put_item type index 0
  | @vectorLength v n type le allowed =>
    obtain ⟨m, hm, hle⟩ := hs.size_vector type
    have hlt := h.word_lt v 0
    have hend := Nat.le_trans (hs.end_le_top hm) hs.arena.reach
    refine hs.put_vector type (by rw [LittleEndian.length_toBytes, refSize]; omega) (.inr ?_)
    rw [← putWord, word_putWord (by rw [refSize] at hle; omega) (by omega)]
    exact le
  | fieldRef type layout field outside child isa outer allowed =>
    exact (hs.put_fieldRef type layout field outside (isa_eq_ok.2 ⟨_, child, isa⟩)).guarded _ _
  | fieldBits type layout field inline length provided allowed =>
    refine hs.put_field type layout field length fun houtside => ?_
    rw [inline] at houtside
    cases houtside
  | arrayBuilt type body ndims unshared count room words sole =>
    exact hs.built type body ndims count room words sole
  | @arrayViewed a v f dims array type other count words allowed marked =>
    have hcapacity : f.capacity < 0x10000000000000000 := by
      rw [← array.capacity]
      exact h.word_lt a capacityWord
    exact hs.viewed array type other count hcapacity words
  | arrayMoved array ndims unshared body room sole =>
    exact (hs.moved array ndims body room sole).guarded _ _
  | @arrayLength a f n array ndims unshared body allowed =>
    have hcapacity := h.word_lt a capacityWord
    rw [array.capacity] at hcapacity
    exact hs.resized array ndims unshared body (Nat.lt_of_le_of_lt body.length_le hcapacity)
  | @buffer v k bs type unused start stop allowed =>
    have hr : Rewrites (fun w j => w = v ∧ refSize ≤ j) h (h.put v k bs) :=
      .put hs.arena (hs.size_buffer type) stop fun j hj _ => ⟨rfl, by omega⟩
    exact hs.rewrites_buffer type hr (fun _ _ hw => hw) fun ha hbuffer => absurd hbuffer (unused ha)
  | elementRef array index storage child isa allowed =>
    exact (hs.put_reference array index storage (isa_eq_ok.2 ⟨_, child, isa⟩)).guarded _ _
  | elementBits array index storage length provided allowed =>
    exact hs.put_element array index (by rw [storage]; decide)
      (Nat.add_le_add_left (Nat.le_of_eq length) _)
  | elementMember array index storage union member length provided allowed =>
    have hle := hs.member_le array storage union (List.mem_of_getElem? member) length
    have hsel := hs.selector_of_member array storage union member
    rw [Nat.add_assoc]
    exact (hs.put_slot array index storage hsel (Nat.add_le_add_left hle _)
      (by rw [List.length_replicate]; omega)).1
  | elementScalar array index storage union member length provided allowed =>
    have hle := hs.member_le array storage union (List.mem_of_getElem? member) length
    have hsel := hs.selector_of_member array storage union member
    exact (hs.put_slot array index storage hsel (Nat.le_of_eq (by rw [List.length_replicate]))
      (Nat.add_le_add_left hle _)).1
  | elementsCleared array le room allowed => exact hs.clear_slots array le room
  | selectorsCleared array le room storage => exact hs.clear_selectors array le room storage

/-- Payloads change, and the barrier may be told of an object all of which may be touched. -/
inductive Wrote (S : Value → Nat → Prop) (h : Heap) : Heap → Prop
  | plain {h' : Heap} (writes : Writes S h h') : Wrote S h h'
  | told {h' : Heap} {p c : Value} (writes : Writes S h h') (allowed : ∀ j, S p j) : Wrote S h (h'.guarded p c)

/-- A step adds to the registry, or adds an object, or changes payloads where it is allowed to. -/
theorem Step.wrote (step : Step S h h') (hs : h.Sound) :
    h.Learns h' ∨ (∃ v t n, Added h h' v t n) ∨ Wrote S h h' := by
  have hwrites {h' : Heap} (hr : Writes S h h') : h.Learns h' ∨ (∃ v t n, Added h h' v t n) ∨ Wrote S h h' :=
    .inr (.inr (.plain hr))
  have hguarded {p c : Value} {h₁ : Heap} (hp : ∀ j, S p j) (hr : Writes S h h₁) :
      h.Learns (h₁.guarded p c) ∨ (∃ v t n, Added h (h₁.guarded p c) v t n) ∨ Wrote S h (h₁.guarded p c) :=
    .inr (.inr (.told hr hp))
  have hbuffer {b : Value} (hb : ∀ j, S b j) (w : Value) (j : Nat) (hw : w = b) : S w j := hw ▸ hb j
  have hput {v : Value} {k n : Nat} {bs : List UInt8} (hn : h.size? v = some n)
      (hend : k + bs.length ≤ n) (hS : ∀ j, S v j) : Writes S h (h.put v k bs) :=
    .put hs.arena hn hend fun j _ _ => hS j
  have hword {v : Value} {k n m : Nat} (hn : h.size? v = some n) (hend : k + 8 ≤ n)
      (hS : ∀ j, S v j) : Writes S h (h.putWord v k m) :=
    .putWord hs.arena hn hend fun j _ _ => hS j
  cases step with
  | learns learns => exact .inl learns
  | symbol s => exact hwrites (Writes.withSymbols S h _)
  | allocated descriptor size start room =>
    exact .inr (.inl ⟨_, _, _, allocated_added hs descriptor size start room⟩)
  | bits type layout isBits length provided allowed =>
    exact hwrites (hput (hs.size_bits type layout isBits) (by omega) allowed)
  | text type length allowed => exact hwrites (hput (hs.size_string type) (by omega) allowed)
  | vectorSlot type index allowed =>
    obtain ⟨n, hn, hle⟩ := hs.size_vector type
    exact hguarded allowed (hword hn (by rw [refSize] at hle ⊢; omega) allowed)
  | vectorCleared type index allowed =>
    obtain ⟨n, hn, hle⟩ := hs.size_vector type
    exact hwrites (hword hn (by rw [refSize] at hle ⊢; omega) allowed)
  | vectorLength type le allowed =>
    obtain ⟨n, hn, hle⟩ := hs.size_vector type
    exact hwrites (hword hn (by rw [refSize] at hle; omega) allowed)
  | fieldRef type layout field outside child isa outer allowed =>
    have hend := hs.registry.layouts.end_le layout field
    rw [hs.registry.layouts.size_reference layout field outside] at hend
    exact hguarded allowed (hword (hs.size_record type layout field) hend allowed)
  | fieldBits type layout field inline length provided allowed =>
    have hend := hs.registry.layouts.end_le layout field
    exact hwrites (hput (hs.size_record type layout field) (by omega) allowed)
  | arrayBuilt type body ndims unshared count room words sole young youngBuffer zero allowed =>
    exact hwrites (putArray_writes hs type allowed)
  | arrayViewed array type other count words young allowed marked =>
    exact hwrites (putView_writes hs array type allowed marked)
  | arrayMoved array ndims unshared body room sole young same allowed =>
    exact hguarded allowed (putBuffer_writes hs array ndims allowed)
  | arrayLength array ndims unshared body allowed =>
    exact hwrites (putLength_writes hs array ndims fun j _ => allowed j)
  | buffer type unused start stop allowed => exact hwrites (hput (hs.size_buffer type) stop allowed)
  | elementRef array index storage child isa allowed =>
    have hsize := (hs.arrays array).body.slotSize_references storage
    refine hguarded allowed ((Writes.put_element hs array index ?_).mono (hbuffer allowed))
    exact Nat.le_of_eq (by rw [LittleEndian.length_toBytes, hsize])
  | elementBits array index storage length provided allowed =>
    exact hwrites ((Writes.put_element hs array index
      (Nat.add_le_add_left (Nat.le_of_eq length) _)).mono
      (hbuffer allowed))
  | elementMember array index storage union member length provided allowed =>
    have hle := hs.member_le array storage union (List.mem_of_getElem? member) length
    have hsel := hs.selector_of_member array storage union member
    rw [Nat.add_assoc]
    exact hwrites ((hs.put_slot array index storage hsel (Nat.add_le_add_left hle _)
      (by rw [List.length_replicate]; omega)).2.mono (hbuffer allowed))
  | elementScalar array index storage union member length provided allowed =>
    have hle := hs.member_le array storage union (List.mem_of_getElem? member) length
    have hsel := hs.selector_of_member array storage union member
    exact hwrites ((hs.put_slot array index storage hsel (Nat.le_of_eq (by rw [List.length_replicate]))
      (Nat.add_le_add_left hle _)).2.mono (hbuffer allowed))
  | elementsCleared array le room allowed =>
    have hb := (hs.arrays array).body
    obtain ⟨hlen, hend⟩ := hb.slots_end le room
    refine hwrites (hput (hs.size_buffer hb.buffer) ?_ allowed)
    rw [List.length_replicate]
    omega
  | selectorsCleared array le room storage empty allowed =>
    have hb := (hs.arrays array).body
    have hend := hb.selector_end storage room
    refine hwrites (hput (hs.size_buffer hb.buffer) ?_ allowed)
    rw [List.length_replicate]
    simp only [ArrayInfo.selectorOffset] at hend ⊢
    omega

/-- A step adds to the registry, or adds an object, or changes payloads and tells the barrier. -/
theorem Step.effect (step : Step S h h') (hs : h.Sound) :
    h.Learns h' ∨ (∃ v t n, Added h h' v t n) ∨ Reports S h h' := by
  rcases step.wrote hs with hl | hadded | hw
  · exact .inl hl
  · exact .inr (.inl hadded)
  · cases hw with
    | plain writes => exact .inr (.inr writes.reports)
    | told writes => exact .inr (.inr (writes.reports.trans (.guarded (writes.arena hs.arena) _ _)))

/-- A step changes payloads only where it is allowed to. -/
theorem Step.keeps (step : Step S h h') (hs : h.Sound) : Keeps S h h' := by
  rcases step.effect hs with hl | ⟨v, t, n, hadded⟩ | hr
  · exact hl.keeps S
  · exact ⟨hadded.keeps.toExtends, fun hn hk _ => hadded.keeps.bytes hn hk id⟩
  · exact hr.keeps

/-- A step lets the registry grow, if it touches it at all. -/
theorem Step.grows (step : Step S h h') (hs : h.Sound) : h.registry.Grows h'.registry := by
  rcases step.effect hs with ⟨r, hr, rfl⟩ | ⟨v, t, n, hadded⟩ | hr
  · exact hr
  · rw [hadded.registry]
    exact .refl _
  · rw [hr.registry]
    exact .refl _

theorem Learns.ages (hl : h.Learns h') : Ages h h' := by
  obtain ⟨r, -, rfl⟩ := hl
  exact ⟨fun _ => .rfl, fun _ => id, fun _ => id⟩

/-- A step makes nobody older, and forgets nothing that is remembered. -/
theorem Step.ages (step : Step S h h') (hs : h.Sound) : Ages h h' := by
  rcases step.effect hs with hl | ⟨v, t, n, hadded⟩ | hw
  · exact hl.ages
  · exact hadded.ages hs.arena
  · exact hw.ages hs.arena

/-! ## Arrays stay arrays -/

/-- An object of an array type is no object of another type. -/
theorem Sound.ne_of_kind {elem : TypeRef} {rank : Nat} (ha : h.ArrayType a elem rank)
    (ht : h.typeOf v = .ok t) (hd : h.types.descriptor t = .ok d) (hkind : d.kind ≠ .array) : a ≠ v := by
  rintro rfl
  obtain ⟨t', d', r, ht', hd', hkind', -⟩ := ha
  rw [ht] at ht'
  cases ht'
  rw [hd] at hd'
  cases hd'
  exact hkind hkind'

/-- What becomes of an object of an array type: it is left alone, it is marked as shared, or it gets other words,
for which all of it has to be open to change. -/
inductive Reworded (S : Value → Nat → Prop) (h h' : Heap) (a : Value) : Prop
  | kept (keeps : Keeps (fun w _ => w ≠ a) h h')
  | marked {f : ArrayInfo} (before : h.IsArray a f) (after : h'.IsArray a (shared f))
  | written {f : ArrayInfo} (allowed : ∀ j, S a j) (after : h'.IsArray a f)

theorem Step.arrayType {elem : TypeRef} {rank : Nat} (step : Step S h h') (hs : h.Sound)
    (htype : h.ArrayType a elem rank) : Reworded S h h' a := by
  have hkept {S' : Value → Nat → Prop} {h' : Heap} (hk : Keeps S' h h') (hS : ∀ j, ¬S' a j) : Reworded S h h' a := by
    refine .kept ⟨hk.toExtends, fun {w n k} hn hk' hw => hk.bytes hn hk' ?_⟩
    rw [Decidable.not_not.1 hw]
    exact hS k
  have hnothing {h' : Heap} (step : Step (fun _ _ => False) h h') : Reworded S h h' a :=
    hkept (step.keeps hs) fun _ => id
  have hother {v : Value} {h' : Heap} (step : Step (fun w _ => w = v) h h') (hne : a ≠ v) : Reworded S h h' a :=
    hkept (step.keeps hs) fun _ => hne
  have hplain {v : Value} {t : TypeRef} {l : Layout} (ht : h.typeOf v = .ok t)
      (hl : h.registry.layouts.find? t = some l) (hsome : l.isBits = true ∨ ∃ e, e ∈ l.fields) : a ≠ v := by
    obtain ⟨d, hd, hdesc⟩ := hs.registry.layouts.describes hl
    exact Sound.ne_of_kind htype ht hd (Sound.kind_of_contents hdesc hsome).2
  have hvector {v : Value} (ht : h.typeOf v = .ok Builtin.simpleVector) : a ≠ v :=
    Sound.ne_of_kind htype ht hs.descriptor_simpleVector nofun
  have hbuffer {b : Value} (hb : h.typeOf b = .ok Builtin.buffer) : a ≠ b := hs.ne_buffer htype hb
  cases step with
  | learns learns => exact hnothing (.learns learns)
  | symbol s => exact hnothing (.symbol s)
  | allocated descriptor size start room => exact hnothing (.allocated descriptor size start room)
  | bits type layout isBits length provided =>
    exact hother (.bits type layout isBits length provided fun _ => rfl) (hplain type layout (.inl isBits))
  | text type length =>
    exact hother (.text type length fun _ => rfl)
      (Sound.ne_of_kind htype type hs.descriptor_string nofun)
  | vectorSlot type index => exact hother (.vectorSlot type index fun _ => rfl) (hvector type)
  | vectorCleared type index => exact hother (.vectorCleared type index fun _ => rfl) (hvector type)
  | vectorLength type le => exact hother (.vectorLength type le fun _ => rfl) (hvector type)
  | fieldRef type layout field outside child isa outer =>
    exact hother (.fieldRef type layout field outside child isa outer fun _ => rfl)
      (hplain type layout (.inr ⟨_, field⟩))
  | fieldBits type layout field inline length provided =>
    exact hother (.fieldBits type layout field inline length provided fun _ => rfl)
      (hplain type layout (.inr ⟨_, field⟩))
  | @arrayBuilt b g dims type body ndims unshared count room words sole young youngBuffer zero allowed =>
    by_cases hab : a = b
    · subst hab
      exact .written allowed (arraySound_putArray hs type body ndims count room words).1
    · exact hother (.arrayBuilt type body ndims unshared count room words sole young youngBuffer zero
        fun _ => rfl) hab
  | @arrayViewed b v g dims array type other count words young allowed =>
    have hcapacity := h.word_lt b capacityWord
    rw [array.capacity] at hcapacity
    obtain ⟨⟨hb, -⟩, hv, -⟩ := arraySound_putView hs array type other count hcapacity words
    by_cases hav : a = v
    · subst hav
      exact .written allowed hv
    · by_cases hab : a = b
      · subst hab
        exact .marked array hb
      · have hk := (Step.arrayViewed (S := fun w _ => w = b ∨ w = v) array type other count words young
          (fun _ => .inr rfl) fun _ _ _ => .inl rfl).keeps hs
        exact hkept hk fun _ hor => hor.elim hab hav
  | @arrayMoved b g buffer n array ndims unshared body room sole young same allowed =>
    by_cases hab : a = b
    · subst hab
      have hmoved := (arraySound_putBuffer hs array ndims body room).1
      exact .written allowed ((hs.moved array ndims body room sole).isArray_guarded hmoved)
    · exact hother (.arrayMoved array ndims unshared body room sole young same fun _ => rfl) hab
  | @arrayLength b g n array ndims unshared body allowed =>
    have hcapacity := h.word_lt b capacityWord
    rw [array.capacity] at hcapacity
    by_cases hab : a = b
    · subst hab
      exact .written allowed (arraySound_putLength hs array ndims body
        (Nat.lt_of_le_of_lt body.length_le hcapacity)).1
    · exact hother (.arrayLength array ndims unshared body fun _ => rfl) hab
  | buffer type unused start stop =>
    exact hother (.buffer type unused start stop fun _ => rfl) (hbuffer type)
  | elementRef array index storage child isa =>
    exact hother (.elementRef array index storage child isa fun _ => rfl)
      (hbuffer (hs.arrays array).body.buffer)
  | elementBits array index storage length provided =>
    exact hother (.elementBits array index storage length provided fun _ => rfl)
      (hbuffer (hs.arrays array).body.buffer)
  | elementMember array index storage union member length provided =>
    exact hother (.elementMember array index storage union member length provided fun _ => rfl)
      (hbuffer (hs.arrays array).body.buffer)
  | elementScalar array index storage union member length provided =>
    exact hother (.elementScalar array index storage union member length provided fun _ => rfl)
      (hbuffer (hs.arrays array).body.buffer)
  | elementsCleared array le room =>
    exact hother (.elementsCleared array le room fun _ => rfl) (hbuffer (hs.arrays array).body.buffer)
  | selectorsCleared array le room storage empty =>
    exact hother (.selectorsCleared array le room storage empty fun _ => rfl)
      (hbuffer (hs.arrays array).body.buffer)

/-- An array that has a buffer has one after each step. -/
theorem Step.isArray (step : Step S h h') (hs : h.Sound) (ha : h.IsArray a f) :
    ∃ f', h'.IsArray a f' := by
  cases step.arrayType hs (hs.arrays ha).type with
  | kept keeps => exact ⟨f, hs.isArray_kept ha keeps fun _ hne => hne rfl⟩
  | marked _ after => exact ⟨_, after⟩
  | written _ after => exact ⟨_, after⟩

/-! ## Many steps -/

namespace Move

theorem sound (move : Move S h h') (hs : h.Sound) : h'.Sound := by
  cases move with
  | step step => exact step.sound hs
  | flags rewrites => exact hs.rewrites_flags rewrites

theorem keeps (move : Move S h h') (hs : h.Sound) : Keeps S h h' := by
  cases move with
  | step step => exact step.keeps hs
  | flags rewrites => exact (rewrites.mono fun _ _ => False.elim).keeps

theorem grows (move : Move S h h') (hs : h.Sound) : h.registry.Grows h'.registry := by
  cases move with
  | step step => exact step.grows hs
  | flags rewrites =>
    rw [rewrites.registry]
    exact .refl _

theorem isArray (move : Move S h h') (hs : h.Sound) (ha : h.IsArray a f) : ∃ f', h'.IsArray a f' := by
  cases move with
  | step step => exact step.isArray hs ha
  | flags rewrites => exact ⟨f, hs.isArray_kept ha rewrites.keeps fun _ => id⟩

end Move

namespace Trail

instance : Trans (Trail S) (Trail S) (Trail S) := ⟨Relation.ReflTransGen.trans⟩

theorem sound (trail : Trail S h h') (hs : h.Sound) : h'.Sound := by
  induction trail with
  | refl => exact hs
  | tail _ move ih => exact move.sound ih

/-- What every move between sound heaps keeps, a trail keeps. By induction on the trail. -/
theorem preserves {P : Heap → Prop} (trail : Trail S h h') (hs : h.Sound)
    (hmove : ∀ {h₁ h₂ : Heap}, Move S h₁ h₂ → h₁.Sound → P h₁ → P h₂) (hp : P h) : P h' := by
  induction trail with
  | refl => exact hp
  | tail rest move ih => exact hmove move (Trail.sound rest hs) ih

theorem keeps (trail : Trail S h h') (hs : h.Sound) : Keeps S h h' :=
  trail.preserves hs (fun move hs hk => hk.trans (move.keeps hs)) (.refl S h)

theorem grows (trail : Trail S h h') (hs : h.Sound) : h.registry.Grows h'.registry :=
  trail.preserves (P := fun h' => h.registry.Grows h'.registry) hs (fun move hs hg => hg.trans (move.grows hs))
    (.refl _)

theorem isArray (trail : Trail S h h') (hs : h.Sound) (ha : h.IsArray a f) : ∃ f', h'.IsArray a f' :=
  trail.preserves (P := fun h' => ∃ f', h'.IsArray a f') hs (fun move hs ⟨_, ha⟩ => move.isArray hs ha) ⟨f, ha⟩

theorem flags (hr : Rewrites (fun _ _ => False) h h') (hsymbols : h'.symbols = h.symbols) : Trail S h h' :=
  .single (.flags hr hsymbols)

end Trail

namespace Path

instance : Std.Refl (Path S) := ⟨fun _ => .refl⟩

instance : Trans (Path S) (Path S) (Path S) := ⟨Relation.ReflTransGen.trans⟩

theorem trail (path : Path S h h') : Trail S h h' :=
  Relation.ReflTransGen.mono (fun _ _ step => Move.step step) _ _ path

theorem sound (path : Path S h h') (hs : h.Sound) : h'.Sound := path.trail.sound hs

/-- What every step between sound heaps keeps, a path keeps. By induction on the path. -/
theorem preserves {P : Heap → Prop} (path : Path S h h') (hs : h.Sound)
    (hstep : ∀ {h₁ h₂ : Heap}, Step S h₁ h₂ → h₁.Sound → P h₁ → P h₂) (hp : P h) : P h' := by
  induction path with
  | refl => exact hp
  | tail rest step ih => exact hstep step (Path.sound rest hs) ih

theorem keeps (path : Path S h h') (hs : h.Sound) : Keeps S h h' := path.trail.keeps hs

theorem ages (path : Path S h h') (hs : h.Sound) : Ages h h' :=
  path.preserves hs (fun step hs ha => ha.trans (step.ages hs)) (.refl h)

theorem step (step : Step S h h') : Path S h h' := .single step

theorem learns (hl : h.Learns h') : Path S h h' := .single (.learns hl)

end Path

end TypedHeap.Heap
