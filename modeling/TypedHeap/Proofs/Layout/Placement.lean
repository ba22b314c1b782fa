import Mathlib.Order.Bounds.Basic
import TypedHeap.Proofs.Layout.Leaves
import TypedHeap.Proofs.Layout.Reference

/-!
# The layout of a product

A product is laid out tightly: each field starts as early as its alignment and the field before it allow, the
alignment of the whole is the greatest one among its fields, and the size is the least that has room for all of
them. Alignments are those that declarations may ask for, which are powers of two. References lie where the layout
says, and nowhere else.

* `Packed`: fields as close to each other as their alignments allow.
* `Registry.Embeds`, `Registry.Occupies`: types whose values lie inside others, and what a field takes up.
* `Registry.Geometry`: the layout of a struct or tuple, clause by clause.

Main results: `packed_placeFrom`, `Registry.Sound.geometry`.
-/

namespace TypedHeap

/-! ## Multiples of an alignment -/

section Alignment

variable {n a : Nat}

theorem isLeast_alignUp (ha : 0 < a) : IsLeast {m | a ∣ m ∧ n ≤ m} (alignUp n a) := by
  refine ⟨⟨dvd_alignUp n a, le_alignUp ha⟩, ?_⟩
  rintro m ⟨⟨c, rfl⟩, hm⟩
  -- A smaller multiple of `a` would leave `n` and the next multiple less than `a` apart.
  rw [alignUp, Nat.mul_comm]
  refine Nat.mul_le_mul_left a (Nat.le_of_lt_succ ((Nat.div_lt_iff_lt_mul ha).2 ?_))
  rw [Nat.succ_mul, Nat.mul_comm c a]
  omega

end Alignment

/-! ## Placing fields -/

/-- Fields lie one after the other from an offset on, each at the first multiple of its alignment that is not
inside the field before it. -/
inductive Packed : Nat → List FieldLayout → List Nat → Prop
  | nil {off : Nat} : Packed off [] []
  | cons {off : Nat} {f : FieldLayout} {fs : List FieldLayout} {a : Nat} {aligns : List Nat}
      (first : IsLeast {n | a ∣ n ∧ off ≤ n} f.offset) (rest : Packed (f.offset + f.size) fs aligns) :
      Packed off (f :: fs) (a :: aligns)

section Slots

variable {off n : Nat} {slots : List Slot}

theorem packed_placeFrom (hpos : ∀ s ∈ slots, 0 < s.align) :
    Packed off (placeFrom off slots) (slots.map Slot.align) := by
  induction slots generalizing off with
  | nil => exact .nil
  | cons s slots ih =>
    rw [List.forall_mem_cons] at hpos
    exact .cons (isLeast_alignUp hpos.1) (ih hpos.2)

/-- What is not inside a field is behind the last one. -/
theorem endFrom_le (hoff : off ≤ n) (hn : ∀ f ∈ placeFrom off slots, f.offset + f.size ≤ n) :
    endFrom off slots ≤ n := by
  induction slots generalizing off with
  | nil => exact hoff
  | cons s slots ih =>
    rw [placeFrom, List.forall_mem_cons] at hn
    exact ih hn.1 hn.2

theorem isGreatest_foldl_align (a : Nat) (slots : List Slot) :
    IsGreatest {n | n = a ∨ n ∈ slots.map Slot.align} (slots.foldl (fun m s => max m s.align) a) := by
  induction slots generalizing a with
  | nil => exact ⟨.inl rfl, fun n hn => hn.elim Nat.le_of_eq nofun⟩
  | cons s slots ih =>
    obtain ⟨hmem, hle⟩ := ih (max a s.align)
    have hmax : max a s.align ≤ (s :: slots).foldl (fun m s => max m s.align) a := hle (.inl rfl)
    refine ⟨?_, ?_⟩
    · rcases hmem with heq | hmem
      · rcases Nat.le_total a s.align with h | h
        · exact .inr (List.mem_cons.2 (.inl (heq.trans (Nat.max_eq_right h))))
        · exact .inl (heq.trans (Nat.max_eq_left h))
      · exact .inr (List.mem_cons_of_mem _ hmem)
    · rintro n (rfl | hn)
      · exact Nat.le_trans (Nat.le_max_left _ _) hmax
      · rcases List.mem_cons.1 hn with rfl | hn
        · exact Nat.le_trans (Nat.le_max_right _ _) hmax
        · exact hle (.inr hn)

namespace Layout

variable {isMutable : Bool}

/-- The size of a product is the least multiple of its alignment that has room for all fields. -/
theorem isLeast_ofSlots_size (hpos : ∀ s ∈ slots, 0 < s.align) :
    IsLeast {n | (ofSlots isMutable slots).alignment ∣ n ∧
      ∀ f ∈ (ofSlots isMutable slots).fields, f.offset + f.size ≤ n} (ofSlots isMutable slots).size := by
  have halignment : 0 < (ofSlots isMutable slots).alignment := ofSlots_alignment_pos
  refine ⟨⟨dvd_alignUp _ _, fun f hf => ofSlots_end_le hpos hf⟩, ?_⟩
  rintro n ⟨hdvd, hn⟩
  exact (isLeast_alignUp halignment).2 ⟨hdvd, endFrom_le (Nat.zero_le n) hn⟩

theorem ofSlots_isBits_iff :
    (ofSlots isMutable slots).isBits = true ↔
      isMutable = false ∧ (ofSlots isMutable slots).pointerOffsets = [] := by
  show (!isMutable && (ofSlots isMutable slots).pointerOffsets.isEmpty) = true ↔ _
  rw [Bool.and_eq_true_iff, Bool.not_eq_true', List.isEmpty_iff]

end Layout

end Slots

open Layouts

/-! ## Fields as they are declared -/

namespace Descriptor

variable {d : Descriptor} {fields : List (Symbol × TypeRef)} {fs : List FieldLayout}

/-- Fields have the names and types that a struct declares, or are numbered and have the types that are the
parameters of a tuple, in order. -/
def Declares (d : Descriptor) (fs : List FieldLayout) : Prop :=
  match d.kind with
  | .struct => List.Forall₂ (fun p f => f.name = p.1 ∧ d.resolve p.2 = .ok f.type) d.family.fields fs
  | .tuple =>
    d.params = Params.ofTypes (fs.map FieldLayout.type) ∧
      ∀ i (hi : i < fs.length), fs[i].name = ⟨toString (i + 1)⟩
  | _ => False

theorem forall₂_structFields (h : structFields d = .ok fields) :
    List.Forall₂ (fun p q => q.1 = p.1 ∧ d.resolve p.2 = .ok q.2) d.family.fields fields := by
  refine (mapM_eq_ok.1 h).imp fun p q hq => ?_
  obtain ⟨s, hs, hq⟩ := bind_eq_ok.1 hq
  cases hq
  exact ⟨rfl, hs⟩

theorem params_of_tupleFieldsFrom {ps : Params} {k : Nat} (h : tupleFieldsFrom k ps = .ok fields) :
    ps = Params.ofTypes (fields.map Prod.snd) := by
  induction ps generalizing k fields with
  | nil =>
    cases h
    rfl
  | cons p ps ih =>
    rw [tupleFieldsFrom] at h
    cases p with
    | type t =>
      obtain ⟨rest, hrest, h⟩ := bind_eq_ok.1 h
      cases h
      exact congrArg (TypeParam.type t :: ·) (ih hrest)
    | _ => cases h

theorem name_of_tupleFieldsFrom {ps : Params} {k : Nat} (h : tupleFieldsFrom k ps = .ok fields) (i : Nat)
    (hi : i < fields.length) : fields[i].1 = ⟨toString (k + i + 1)⟩ := by
  induction ps generalizing k fields i with
  | nil =>
    cases h
    cases hi
  | cons p ps ih =>
    rw [tupleFieldsFrom] at h
    split at h
    · obtain ⟨rest, hrest, h⟩ := bind_eq_ok.1 h
      cases h
      cases i with
      | zero => rfl
      | succ i =>
        have hname := ih hrest i (Nat.lt_of_succ_lt_succ hi)
        rw [List.getElem_cons_succ, hname]
        congr 2
        omega
    · cases h

theorem declares_of_fieldsOf (h : FieldsOf d (fs.map fun f => (f.name, f.type))) : d.Declares fs := by
  unfold Declares
  rcases h with ⟨hkind, hfields⟩ | ⟨hkind, hfields⟩
  · simp only [hkind]
    exact List.forall₂_map_right_iff.1 (forall₂_structFields hfields)
  · simp only [hkind]
    refine ⟨?_, fun i hi => ?_⟩
    · have hparams := params_of_tupleFieldsFrom hfields
      rw [List.map_map] at hparams
      exact hparams
    · have hname := name_of_tupleFieldsFrom hfields i (by rw [List.length_map]; exact hi)
      rw [List.getElem_map, Nat.zero_add] at hname
      exact hname

end Descriptor

/-! ## The layout, clause by clause -/

namespace Registry

variable {r : Registry} {t : TypeRef} {d : Descriptor} {l : Layout}

/-- Values of a type lie inside the objects that have a field of that type: they are immutable primitives,
structs or tuples, and the layout of the type is bits. -/
structure Embeds (r : Registry) (t : TypeRef) (l : Layout) : Prop where
  product : ∃ d, r.table.descriptor t = .ok d ∧ d.isMutable = false ∧
    ((∃ size align, d.kind = .primitive size align) ∨ d.kind = .struct ∨ d.kind = .tuple)
  answer : (layout t).runOn r = (.ok l, r)
  bits : l.isBits = true

/-- What a field takes up, and the alignment of its offset: those of its type if values of the type lie inside
others, and those of a reference for everything else. -/
inductive Occupies (r : Registry) (f : FieldLayout) : Nat → Prop
  | inline {l : Layout} (type : r.Embeds f.type l) (inside : f.isInline = true) (size : f.size = l.size) :
      Occupies r f l.alignment
  | reference (type : ∀ l, ¬r.Embeds f.type l) (outside : f.isInline = false) (size : f.size = refSize) :
      Occupies r f refSize

/-- The layout of a struct or tuple, given the alignments of its fields. -/
structure Geometry (r : Registry) (d : Descriptor) (t : TypeRef) (l : Layout) (aligns : List Nat) : Prop where
  /-- Fields are in the order of their declaration. -/
  declared : d.Declares l.fields
  occupied : List.Forall₂ r.Occupies l.fields aligns
  packed : Packed 0 l.fields aligns
  disjoint : l.fields.Pairwise fun f g => f.offset + f.size ≤ g.offset
  inside : ∀ f ∈ l.fields, f.offset + f.size ≤ l.size
  alignment : IsGreatest {n | n = 1 ∨ n ∈ aligns} l.alignment
  power : ∃ k, l.alignment = 2 ^ k
  size : IsLeast {n | l.alignment ∣ n ∧ ∀ f ∈ l.fields, f.offset + f.size ≤ n} l.size
  word : l.size < 2 ^ 64
  pointers : l.pointerOffsets = (l.fields.filter (!·.isInline)).map FieldLayout.offset
  /-- No reference lies anywhere else, at whatever depth of inline fields. -/
  references : ∀ off n, r.Leaf t off n none ↔ off ∈ l.pointerOffsets ∧ n = refSize
  bits : l.isBits = true ↔ d.isMutable = false ∧ l.pointerOffsets = []

theorem mayBeInline_iff : d.mayBeInline = true ↔ d.isMutable = false ∧
    ((∃ size align, d.kind = .primitive size align) ∨ d.kind = .struct ∨ d.kind = .tuple) := by
  unfold Descriptor.mayBeInline
  rw [Bool.and_eq_true_iff, Bool.not_eq_true']
  refine and_congr_right fun _ => ?_
  cases d.kind <;> simp

theorem Sound.embeds (hr : r.Sound) (h : r.Inline t true) (hl : r.layouts.find? t = some l) :
    r.Embeds t l := by
  obtain ⟨d, hd, ⟨-, hb⟩ | ⟨hinline, k, hk, hbits⟩⟩ := h
  · cases hb
  · cases hk.symm.trans hl
    exact ⟨⟨d, hd, mayBeInline_iff.1 hinline⟩, runOn_layout hr hl, hbits⟩

theorem Sound.not_embeds (hr : r.Sound) (h : r.Inline t false) (l : Layout) : ¬r.Embeds t l := by
  rintro ⟨⟨e, he, hproduct⟩, hanswer, hbits⟩
  obtain ⟨d, hd, ⟨hinline, -⟩ | ⟨-, k, hk, hout⟩⟩ := h
  · cases hd.symm.trans he
    rw [mayBeInline_iff.2 hproduct] at hinline
    cases hinline
  · rw [runOn_layout hr hk] at hanswer
    cases hanswer
    rw [hbits] at hout
    cases hout

/-- A field takes up what its declared type asks for. -/
theorem Sound.occupies {p : Symbol × TypeRef} {s : Slot} {f : FieldLayout} (hr : r.Sound)
    (hs : SlotFor r.table r.layouts p s) (hf : s.Placed f) : r.Occupies f s.align := by
  have htype : f.type = s.type := hf.type_eq
  cases hs with
  | inline inline found =>
    exact .inline (by rw [htype]; exact hr.embeds inline found) hf.isInline_eq hf.size_eq
  | reference outside =>
    exact .reference (by rw [htype]; exact hr.not_embeds outside) hf.isInline_eq hf.size_eq

theorem Sound.forall₂_occupies {fields : List (Symbol × TypeRef)} {slots : List Slot}
    {fs : List FieldLayout} (hr : r.Sound) (hslots : List.Forall₂ (SlotFor r.table r.layouts) fields slots)
    (hplaced : List.Forall₂ Slot.Placed slots fs) : List.Forall₂ r.Occupies fs (slots.map Slot.align) := by
  induction hslots generalizing fs with
  | nil =>
    cases hplaced
    exact .nil
  | cons hs _ ih =>
    cases hplaced with
    | cons hf hfs => exact .cons (hr.occupies hs hf) (ih hfs)

/-- Values that are bits hold no references, however deep. -/
theorem Leaf.ne_none_of_isBits {off n : Nat} {leaf : Option TypeRef} (hleaf : r.Leaf t off n leaf)
    (hr : r.Sound) (hl : r.layouts.find? t = some l) (hbits : l.isBits = true) : leaf ≠ none := by
  induction hleaf generalizing l with
  | primitive => exact nofun
  | reference layout field outside =>
    cases layout.symm.trans hl
    rw [hr.layouts.inline_of_isBits hl hbits field] at outside
    cases outside
  | inline layout field inline _ ih =>
    obtain ⟨k, hk, hkbits, -⟩ := hr.layouts.inline layout field inline
    exact ih hk hkbits

/-- References of a value are its fields that are no values themselves. -/
theorem Sound.leaf_none_iff (hr : r.Sound) (hl : r.layouts.find? t = some l) (off n : Nat) :
    r.Leaf t off n none ↔
      off ∈ (l.fields.filter (!·.isInline)).map FieldLayout.offset ∧ n = refSize := by
  constructor
  · intro hleaf
    generalize hnone : (none : Option TypeRef) = leaf at hleaf
    cases hleaf with
    | primitive => cases hnone
    | reference layout field outside =>
      cases layout.symm.trans hl
      refine ⟨List.mem_map_of_mem (List.mem_filter.2 ⟨field, ?_⟩),
        hr.layouts.size_reference hl field outside⟩
      rw [outside]
      rfl
    | inline layout field inline inner =>
      obtain ⟨k, hk, hbits, -⟩ := hr.layouts.inline layout field inline
      exact absurd hnone.symm (inner.ne_none_of_isBits hr hk hbits)
  · rintro ⟨hoff, rfl⟩
    obtain ⟨f, hf, rfl⟩ := List.mem_map.1 hoff
    obtain ⟨hf, hout⟩ := List.mem_filter.1 hf
    rw [Bool.not_eq_true'] at hout
    rw [← hr.layouts.size_reference hl hf hout]
    exact .reference hl hf hout

/-- The names and types of fields that were placed. -/
theorem map_of_placed {m : LayoutMemo} {tt : TypeTable} {fields : List (Symbol × TypeRef)} {slots : List Slot}
    {fs : List FieldLayout} (hslots : List.Forall₂ (SlotFor tt m) fields slots)
    (hplaced : List.Forall₂ Slot.Placed slots fs) : fs.map (fun f => (f.name, f.type)) = fields := by
  induction hslots generalizing fs with
  | nil =>
    cases hplaced
    rfl
  | cons hs _ ih =>
    cases hplaced with
    | cons hf hfs =>
      rw [List.map_cons, ih hfs, hf.name_eq, hf.type_eq]
      cases hs <;> rfl

/-- The layout of a struct that is remembered has the fields of the struct in order. -/
theorem Sound.map_fields {fields : List (Symbol × TypeRef)} (hr : r.Sound) (hd : r.table.descriptor t = .ok d)
    (hkind : d.kind = .struct) (hfields : structFields d = .ok fields) (hl : r.layouts.find? t = some l) :
    l.fields.map (fun f => (f.name, f.type)) = fields := by
  obtain ⟨d', hd', hdesc⟩ := hr.layouts.describes hl
  cases hd.symm.trans hd'
  obtain ⟨fields', hfields', hp⟩ := hdesc.product (.inl hkind)
  obtain ⟨slots, hslots, -, rfl, -⟩ := hr.layouts.product hp
  obtain rfl := FieldsOf.unique (.inl ⟨hkind, hfields⟩) hfields'
  exact map_of_placed hslots (placed_placeFrom 0 slots)

/-- A product whose layout is remembered is laid out field by field. -/
theorem Sound.geometry (hr : r.Sound) (hd : r.table.descriptor t = .ok d)
    (hkind : d.kind = .struct ∨ d.kind = .tuple) (hl : r.layouts.find? t = some l) :
    ∃ aligns, r.Geometry d t l aligns := by
  obtain ⟨d', hd', hdesc⟩ := hr.layouts.describes hl
  cases hd.symm.trans hd'
  obtain ⟨fields, hfields, hp⟩ := hdesc.product hkind
  obtain ⟨slots, hslots, halign, rfl, hword⟩ := hr.layouts.product hp
  have hpos : ∀ s ∈ slots, 0 < s.align := fun s hs => TypeTable.pos_of_alignment (halign s hs)
  have hplaced := placed_placeFrom 0 slots
  rw [← map_of_placed hslots hplaced] at hfields
  exact ⟨slots.map Slot.align, {
    declared := Descriptor.declares_of_fieldsOf hfields
    occupied := hr.forall₂_occupies hslots hplaced
    packed := packed_placeFrom hpos
    disjoint := pairwise_placeFrom hpos
    inside := fun f hf => Layout.ofSlots_end_le hpos hf
    alignment := isGreatest_foldl_align 1 slots
    power := TypeTable.exists_two_pow (hr.layouts.aligned hl)
    size := Layout.isLeast_ofSlots_size hpos
    word := hword
    pointers := rfl
    references := hr.leaf_none_iff hl
    bits := Layout.ofSlots_isBits_iff }⟩

end Registry

end TypedHeap
