import TypedHeap.Proofs.Array.Acceptance
import TypedHeap.Proofs.Heap.Order
import TypedHeap.Proofs.Object.Record

/-!
# Copies of whole values

A value goes into a field or a slot, and out of it into a box, by a copy of so many bytes. How many, the field or
the slot says, and who stores only asks whether the type fits. Below a type that is stored in place there is no
other type, so what is copied is all of an object, to a place that is as large.

* `Heap.Place`: where values of a type lie inside other objects.
* `Heap.Matches`: an object and a place for values of its type take the same number of bytes.

Main results: `InOrder.isa_iff_eq`, and for each copy the bytes that it is of: `Record.store_copies`,
`Record.readValue_copies`, `ArrayObject.set_copies_flat`, `ArrayObject.set_copies_member`,
`ArrayObject.getValue_copies_element`.
-/

namespace TypedHeap

open TypedHeap.Action (runOn_bind_ok runOn_look)
open Heap

variable {h h' : Heap} {a v x : Value} {t u : TypeRef} {d : Descriptor} {e : FieldLayout} {f : ArrayInfo} {i n : Nat}
  {B : Value → Prop}

/-! ## Places -/

namespace Heap

/-- A run of bytes inside an object where values of a type lie, from the first byte of such a value to the last. -/
inductive Place (h : Heap) (t : TypeRef) : Nat → Nat → Prop
  /-- An inline field of the type. It ends inside the object. -/
  | field {v : Value} {e : FieldLayout} {n : Nat} (field : Record.IsField h v e) (inline : e.isInline = true)
      (type : e.type = t) (size : h.objectSize v = .ok n) (inside : e.offset + e.size ≤ n) :
      Place h t (v.offset + e.offset) e.size
  /-- A slot of an array of the type. It ends inside the buffer. -/
  | slot {a : Value} {f : ArrayInfo} {i n : Nat} (array : ArrayObject.info h a = .ok f) (index : i < f.length)
      (storage : f.flags.storage = .flat) (type : f.elem = t) (size : h.objectSize f.buffer = .ok n)
      (inside : refSize + f.slotOffset i + f.flags.slotSize ≤ n) :
      Place h t (f.buffer.offset + (refSize + f.slotOffset i)) f.flags.slotSize
  /-- The front of a slot of an array of a union that the type is a member of. -/
  | member {a : Value} {f : ArrayInfo} {i m n : Nat} {d : Descriptor} (array : ArrayObject.info h a = .ok f)
      (index : i < f.length) (storage : f.flags.storage = .selected) (union : h.types.descriptor f.elem = .ok d)
      (type : t ∈ d.memberTypes) (front : m ≤ f.flags.slotSize) (size : h.objectSize f.buffer = .ok n)
      (inside : refSize + f.slotOffset i + f.flags.slotSize ≤ n) :
      Place h t (f.buffer.offset + (refSize + f.slotOffset i)) m

/-- An object and a place for values of its type take the same number of bytes. -/
structure Matches (h : Heap) (t : TypeRef) (v : Value) (off n : Nat) : Prop where
  type : h.typeOf v = .ok t
  size : h.objectSize v = .ok n
  place : h.Place t off n

/-! ## Types that are stored in place -/

/-- Below a type that is stored in place there is that type and no other. -/
theorem InOrder.isa_iff_eq (ho : InOrder B h) (hd : h.types.descriptor t = .ok d) (hkind : d.kind.isInstantiable = true)
    (hinline : (isInline u).runOn h = (.ok true, h')) : h.types.isa t u = .ok true ↔ t = u := by
  refine ⟨fun hisa => ?_, fun heq => heq ▸ TypeTable.isa_self h.types t⟩
  have htypes : ((isInline u).runOn h).2.types = h.types := rfl
  rw [hinline] at htypes
  obtain ⟨c, hc, ⟨-, hno⟩ | ⟨hmay, -⟩⟩ := ((isInline_meets u).answered hinline).2
  · cases hno
  have hc : h.types.descriptor u = .ok c := htypes ▸ hc
  have hconcrete := Layouts.isInstantiable_of_mayBeInline hmay
  refine TypeTable.eq_of_isa ho.sound.registry.types ho.types hc ?_ hd ?_ hisa
  · constructor <;> rintro hkind <;> rw [hkind] at hconcrete <;> cases hconcrete
  · rintro hunion
    rw [hunion] at hkind
    cases hkind

/-- An allocation that succeeds leaves a sound heap with a new object. -/
theorem Sound.newObject (hs : h.Sound) (hmade : (allocate t n).runOn h = (.ok v, h')) :
    h'.Sound ∧ NewObject h h' v t n := by
  obtain ⟨hpath, hnew⟩ := (allocate_meets (S := fun w _ => ¬h.Live w) ⟨hs, fun hw _ => hw⟩ t n).answered hmade
  exact ⟨hpath.sound hs, hnew⟩

end Heap

/-! ## Fields -/

namespace Record

theorem IsField.place (hf : IsField h v e) (hs : h.Sound) (hin : e.isInline = true) :
    h.Place e.type (v.offset + e.offset) e.size := by
  obtain ⟨t, l, ht, hl, he⟩ := id hf
  exact .field hf hin rfl (objectSize_eq_ok.2 (hs.size_record ht hl he))
    (hs.registry.layouts.end_le hl he)

/-- An object of the type of an inline field is as large as the field. -/
theorem IsField.objectSize (hf : IsField h v e) (hs : h.Sound) (hin : e.isInline = true)
    (hx : h.typeOf x = .ok e.type) : h.objectSize x = .ok e.size := by
  obtain ⟨t, l, ht, hl, he⟩ := hf
  obtain ⟨m, hm, hbits, hsize⟩ := hs.registry.layouts.inline hl he hin
  rw [← hsize]
  exact objectSize_eq_ok.2 (hs.size_bits hx hm hbits)

/-- What fits an inline field is copied to it, all of it. -/
theorem store_copies (ho : InOrder B h) (hf : IsField h v e) (hin : e.isInline = true) (hx : h.typeOf x = .ok t)
    (hisa : h.types.isa t e.type = .ok true) :
    (store v e x).runOn h = (copyBytes x.offset e.size (v.offset + e.offset)).runOn h ∧ t = e.type ∧
      h.Matches e.type x (v.offset + e.offset) e.size := by
  have hs := ho.sound
  have hsame : t = e.type := by
    obtain ⟨s, l, hv, hl, he⟩ := id hf
    obtain ⟨m, hm, -⟩ := hs.registry.layouts.inline hl he hin
    exact ho.eq_of_isa hx hm hisa
  have htype : (Action.look (·.typeOf x)).runOn h = (.ok t, h) := by rw [runOn_look, hx]
  have hfits : (Action.look (·.types.isa t e.type)).runOn h = (.ok true, h) := by rw [runOn_look, hisa]
  refine ⟨?_, hsame, hsame ▸ hx, hf.objectSize hs hin (hsame ▸ hx), hf.place hs hin⟩
  unfold store
  rw [runOn_bind_ok htype, runOn_bind_ok hfits, if_neg (by decide), hf.place_eq hs, runOn_bind_ok (Action.runOn_lift _ h),
    if_pos hin]

/-- The bits of an inline field are copied to a new box, and fill it. -/
theorem readValue_copies {box : Value} {h₁ h₂ : Heap} (hs : h.Sound)
    (hfield : (fieldLayout v i).runOn h = (.ok e, h₁)) (hin : e.isInline = true)
    (hmade : (allocate e.type 0).runOn h₁ = (.ok box, h₂)) :
    (readValue v i).runOn h =
        (do copyBytes (v.offset + e.offset) e.size box.offset; return box : HeapM Value).runOn h₂ ∧
      h₂.Matches e.type box (v.offset + e.offset) e.size := by
  obtain ⟨hl, hf⟩ := (fieldLayout_meets v i).answered hfield
  have hs₁ := hs.learns hl
  obtain ⟨hs₂, hnew⟩ := hs₁.newObject hmade
  have hf₂ := hf.extends hnew.kept.toExtends
  refine ⟨?_, hnew.type, hf₂.objectSize hs₂ hin hnew.type, hf₂.place hs₂ hin⟩
  unfold readValue
  rw [runOn_bind_ok hfield, hf.place_eq hs₁, runOn_bind_ok (Action.runOn_lift _ h₁), if_pos hin, runOn_bind_ok hmade]

end Record

/-! ## Elements -/

/-- The bits of an element lie in their slot. -/
theorem Heap.ElementBits.place (he : h.ElementBits f i t n) (hs : h.Sound) (ha : h.IsArray a f) (hi : i < f.length) :
    h.Place t (f.buffer.offset + (refSize + f.slotOffset i)) n := by
  have hb := (hs.arrays ha).body
  have hinfo := hs.info_iff.2 ha
  have hsize := objectSize_eq_ok.2 (hs.size_buffer hb.buffer)
  have hend := hb.slot_end (Nat.lt_of_lt_of_le hi hb.length_le)
  obtain ⟨-, -, -, -, hle⟩ := he.layout hb
  cases he with
  | flat storage same size => exact size ▸ .slot hinfo hi storage same hsize (by omega)
  | member storage union selector =>
    exact .member hinfo hi storage union (List.mem_of_getElem? selector) hle hsize (by omega)

namespace ArrayObject

section Elements

variable (hs : h.Sound) (ha : h.IsArray a f) (hi : i < f.length)

include hs ha hi

/-- An object of exactly the element type is copied to the slot, and fills it. -/
theorem set_copies_flat (hflat : f.flags.storage = .flat) (hx : h.typeOf x = .ok f.elem) :
    (set a i x).runOn h =
        (copyBytes x.offset f.flags.slotSize (f.buffer.offset + (refSize + f.slotOffset i))).runOn h ∧
      h.Matches f.elem x (f.buffer.offset + (refSize + f.slotOffset i)) f.flags.slotSize := by
  obtain ⟨l, hl, hbits, hsize⟩ := (hs.arrays ha).body.flat_bits hflat
  have hplace : h.ElementBits f i f.elem f.flags.slotSize := .flat hflat rfl rfl
  refine ⟨?_, hx, hsize ▸ objectSize_eq_ok.2 (hs.size_bits hx hl hbits), hplace.place hs ha hi⟩
  rw [runOn_set hs ha hi hx, setSlot, hflat, ← Nat.add_assoc]
  exact congrArg (fun x : HeapM Unit => x.runOn h) (if_neg (not_not_intro rfl))

/-- An object of a member's type is copied to the front of the slot, and the rest of the slot is cleared. -/
theorem set_copies_member {k : UInt8} (hselected : f.flags.storage = .selected) (hx : h.typeOf x = .ok t)
    (hk : selectorOf h f t = .ok k) : ∃ n, h.objectSize x = .ok n ∧
      (set a i x).runOn h =
        (do
          copyBytes x.offset n (f.buffer.offset + (refSize + f.slotOffset i))
          clearBytes (f.buffer.offset + (refSize + f.slotOffset i + n)) (f.flags.slotSize - n)
          writeBytes (f.buffer.offset + (refSize + f.selectorOffset i)) [k] : HeapM Unit).runOn h ∧
      h.Matches t x (f.buffer.offset + (refSize + f.slotOffset i)) n := by
  have hb := (hs.arrays ha).body
  have hend := hb.slot_end (Nat.lt_of_lt_of_le hi hb.length_le)
  obtain ⟨d, m, hd, hmem, -⟩ := selectorOf_eq_ok hk
  have hmem := List.mem_of_getElem? hmem
  obtain ⟨l, hl, hbits, hle⟩ := hb.member_bits hselected hd hmem
  have hsize := objectSize_eq_ok.2 (hs.size_bits hx hl hbits)
  have hask : (Action.look (selectorOf · f t)).runOn h = (.ok k, h) := by rw [runOn_look, hk]
  refine ⟨l.size, hsize, ?_, hx, hsize, ?_⟩
  · rw [runOn_set hs ha hi hx, setSlot, hselected]
    simp only [← Nat.add_assoc]
    rw [runOn_bind_ok hask, runOn_bind_ok (runOn_sizeOf hs.registry ⟨l, hl, rfl⟩)]
  · exact .member (hs.info_iff.2 ha) hi hselected hd hmem hle (objectSize_eq_ok.2 (hs.size_buffer hb.buffer))
      (by omega)

end Elements

/-- The bits of an element are copied to a new box, and fill it. -/
theorem getValue_copies_element {box : Value} {h₁ h₂ : Heap} {bs : List UInt8} (hs : h.Sound)
    (hget : (get a i).runOn h = (.ok (.bits t bs), h₁)) (hmade : (allocate t 0).runOn h₁ = (.ok box, h₂)) :
    ∃ f, info h₁ a = .ok f ∧ i < f.length ∧ h₂.ElementBits f i t bs.length ∧
      (getValue a i).runOn h =
        (do
          copyBytes (f.buffer.offset + (refSize + f.slotOffset i)) bs.length box.offset
          return box : HeapM Value).runOn h₂ ∧
      h₂.Matches t box (f.buffer.offset + (refSize + f.slotOffset i)) bs.length := by
  obtain ⟨hl, helement⟩ := (get_meets hs a i).answered hget
  obtain ⟨f, ha, hi, hbits⟩ := helement rfl
  have hs₁ := hs.learns hl
  obtain ⟨hs₂, hnew⟩ := hs₁.newObject hmade
  have hbits₂ := hbits.keeps hs₁ ha hi hnew.kept fun _ => id
  have ha₂ := hs₁.isArray_kept ha hnew.kept fun _ => id
  obtain ⟨l, hl, hplain, hsize, -⟩ := hbits₂.layout (hs₂.arrays ha₂).body
  refine ⟨f, hs₁.info_iff.2 ha, hi, hbits₂, ?_, hnew.type, ?_, hbits₂.place hs₂ ha₂ hi⟩
  · unfold getValue
    rw [runOn_bind_ok hget]
    dsimp only
    rw [runOn_bind_ok (hs₁.runOn_info ha), runOn_bind_ok (hs₁.runOn_start ha), Nat.add_assoc, runOn_bind_ok hmade]
  · exact hsize ▸ objectSize_eq_ok.2 (hs₂.size_bits hnew.type hl hplain)

end ArrayObject

end TypedHeap
