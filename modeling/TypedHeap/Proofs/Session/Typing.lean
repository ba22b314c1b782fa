import TypedHeap.Proofs.Session.Run

/-!
# Every reference fits where it stands

Fields have declared types, and so have the elements of arrays. Whatever a caller does, with values made
up or taken from anywhere, no slot ever holds a reference to an object that may not stand there. Simple
vectors declare no type for their slots and are not covered.

* `Heap.WellTyped`: a slot holds nothing, or an object of its type.
* `Heap.FieldsTyped`, `Heap.ElementsTyped`: all slots of an object with fields, and of an array.

Main result: `Session.Reachable.references_typed`.
-/

namespace TypedHeap

open Heap ArrayObject

/-! ## Slots -/

namespace Heap

variable {h : Heap} {a v : Value} {f : ArrayInfo} {t : TypeRef} {k : Nat}

/-- The word at an offset is zero, or names an object that may stand where `t` is asked for. -/
inductive WellTyped (h : Heap) (off : Nat) (t : TypeRef) : Prop
  | empty (word : h.readWord off = .ok 0)
  | object {x : Value} (word : h.readWord off = .ok x.offset) (isa : h.isa x t = .ok true)

theorem wellTyped_of_fits (hend : v.offset + k + 8 ≤ h.top) (hfits : h.Fits v k t) :
    h.WellTyped (v.offset + k) t := by
  have hread := readWord_eq hend
  by_cases hzero : h.word v k = 0
  · rw [hzero] at hread
    exact .empty hread
  · have hlt := h.word_lt v k
    have hslot : h.slot v k = some ⟨h.word v k, by omega, hlt⟩ := dif_pos ⟨by omega, hlt⟩
    exact .object hread (hfits _ hslot)

/-- Every field of an object that is not stored inline is well typed. -/
def FieldsTyped (h : Heap) (v : Value) : Prop :=
  ∀ d, h.descriptor v = .ok d → d.kind = .struct ∨ d.kind = .tuple →
    ∃ l, (Heap.layout d.ref).runOn h = (.ok l, h) ∧
      ∀ e ∈ l.fields, e.isInline = false → h.WellTyped (v.offset + e.offset) e.type

/-- The buffer of an array is one object, named twice, and elements that are references are well typed. -/
structure ElementsTyped (h : Heap) (a : Value) (f : ArrayInfo) : Prop where
  buffer : h.typeOf f.buffer = .ok Builtin.buffer
  data : h.readRef (a.offset + bufferWord) = .ok (some f.buffer)
  owner : h.readRef (a.offset + ownerOffset f.flags.ndims) = .ok (some f.buffer)
  elements : f.flags.storage = .references → ∀ i, i < f.length →
    h.WellTyped (f.buffer.offset + (refSize + f.slotOffset i)) f.elem

theorem Sound.fieldsTyped (hs : h.Sound) (v : Value) : h.FieldsTyped v := by
  intro d hd hkind
  obtain ⟨t, ht, hd⟩ := descriptor_eq_ok.1 hd
  rw [hs.registry.types.ref_eq hd]
  obtain ⟨n, hn, hshape⟩ := hs.shaped_of_typeOf ht hd
  have hlayout : ∃ l, h.registry.layouts.find? t = some l ∧ n = l.size := by
    unfold Shaped at hshape
    rcases hkind with hkind | hkind <;> rwa [hkind] at hshape
  obtain ⟨l, hl, rfl⟩ := hlayout
  refine ⟨l, runOn_layout hs.registry hl, fun e he hout => ?_⟩
  have hend := hs.end_le_top hn
  have hfield := hs.registry.layouts.end_le hl he
  rw [hs.registry.layouts.size_reference hl he hout, refSize] at hfield
  exact wellTyped_of_fits (by omega) (hs.fields ht hl he hout)

theorem Sound.elementsTyped (hs : h.Sound) (ha : h.IsArray a f) : h.ElementsTyped a f := by
  have hbody := (hs.arrays ha).body
  refine ⟨hbody.buffer, hs.readRef_buffer ha, hs.readRef_owner ha, fun href i hi => ?_⟩
  have hsize := hbody.slotSize_references href
  have hslot := hbody.slot_end (Nat.lt_of_lt_of_le hi hbody.length_le)
  have hroom := hs.end_le_top (hs.size_buffer hbody.buffer)
  exact wellTyped_of_fits (by omega) (hbody.fits href i hi)

end Heap

/-! ## Sessions -/

namespace Session

variable {s : Session}

/-- In every heap that operations lead to, fields and elements hold nothing but objects of their types,
and arrays that were asked for are arrays still. -/
theorem Reachable.references_typed (hs : Reachable s) :
    (∀ v, s.heap.FieldsTyped v) ∧ (∀ a ∈ s.arrays, ∃ f, info s.heap a = .ok f) ∧
      ∀ a f, info s.heap a = .ok f → s.heap.ElementsTyped a f := by
  have hsound := hs.sound
  refine ⟨hsound.heap.fieldsTyped, fun a ha => ?_, fun a f hf => ?_⟩
  · obtain ⟨f, hf⟩ := hsound.arrays a ha
    exact ⟨f, hsound.heap.info_iff.2 hf⟩
  · exact hsound.heap.elementsTyped (hsound.heap.info_iff.1 hf)

/-- A module, and a vector with the module in it. -/
def filled : Session :=
  start ⟨64, 4096⟩ .off
    |>.next (.newModule ⟨"Main"⟩ none)
    |>.next (.newVector Builtin.any 1)
    |>.next (.elementWrite (object 80) 0 (object 16))

theorem references_typed_filled :
    Reachable filled ∧ filled.heap.FieldsTyped (object 16) ∧
      ∃ f, info filled.heap (object 80) = .ok f ∧ f.flags.storage = .references ∧
        f.length = 1 ∧ filled.heap.ElementsTyped (object 80) f := by
  have hs : Reachable filled :=
    (((reachable_start _ _).next _ (by nofun)).next _ (by nofun)).next _ (by nofun)
  have hinfo : info filled.heap (object 80) =
      .ok ⟨Builtin.any, ⟨1, .references, false, 8⟩, 1, 1, object 48⟩ := by decide +kernel
  obtain ⟨hfields, -, helements⟩ := hs.references_typed
  exact ⟨hs, hfields _, _, hinfo, rfl, rfl, helements _ _ hinfo⟩

end Session

end TypedHeap
