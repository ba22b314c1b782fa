import TypedHeap.Proofs.Layout.Alignment

/-!
# Padding

The layout of a product has padding if some byte of it lies in none of its fields. A byte inside an inline field may
still be padding of what is stored there: the bytes that belong to no leaf are those that are padding at some depth,
and the layout of the whole speaks of the outermost depth only.

* `Layout.Fills`: a byte that lies in a field.

Main results: `Layout.hasPadding_iff`, `Registry.Sound.covered_iff`.
-/

namespace TypedHeap

open Layouts

/-! ## Fields without gaps -/

/-- A byte that lies in a field. -/
def Layout.Fills (fields : List FieldLayout) (k : Nat) : Prop :=
  ∃ f ∈ fields, f.offset ≤ k ∧ k < f.offset + f.size

section Slots

variable {off : Nat} {slots : List Slot}

/-- Fields leave no gap in front of one of them if and only if there is no byte beside them before the last one
ends. -/
theorem hasGapFrom_iff (hpos : ∀ s ∈ slots, 0 < s.align) :
    hasGapFrom off slots = false ↔ ∀ k, off ≤ k → k < endFrom off slots → Layout.Fills (placeFrom off slots) k := by
  induction slots generalizing off with
  | nil => exact ⟨fun _ k hlo hhi => absurd hhi (Nat.not_lt.2 hlo), fun _ => rfl⟩
  | cons s slots ih =>
    rw [List.forall_mem_cons] at hpos
    have hstart : off ≤ alignUp off s.align := le_alignUp hpos.1
    have hend : alignUp off s.align + s.size ≤ endFrom (alignUp off s.align + s.size) slots := le_endFrom hpos.2
    have hbehind {f : FieldLayout} (hf : f ∈ placeFrom (alignUp off s.align + s.size) slots) :=
      (bounds_placeFrom hpos.2 hf).1
    rw [hasGapFrom, Bool.or_eq_false_iff, bne_eq_false_iff_eq, ih hpos.2, endFrom, placeFrom]
    constructor
    · rintro ⟨hfirst, hrest⟩ k hlo hhi
      rcases Nat.lt_or_ge k (alignUp off s.align + s.size) with hk | hk
      · exact ⟨_, List.mem_cons_self, Nat.le_trans (Nat.le_of_eq hfirst) hlo, hk⟩
      · obtain ⟨f, hf, hin⟩ := hrest k hk hhi
        exact ⟨f, List.mem_cons_of_mem _ hf, hin⟩
    · intro hall
      refine ⟨?_, fun k hlo hhi => ?_⟩
      · -- Otherwise the first byte is in front of all fields.
        by_contra hgap
        obtain ⟨f, hf, hin⟩ := hall off (Nat.le_refl off) (by omega)
        rcases List.mem_cons.1 hf with rfl | hf
        · exact hgap (Nat.le_antisymm hin.1 hstart)
        · have hlo := hbehind hf
          omega
      · obtain ⟨f, hf, hin⟩ := hall k (by omega) hhi
        rcases List.mem_cons.1 hf with rfl | hf
        · exact absurd hin.2 (Nat.not_lt.2 hlo)
        · exact ⟨f, hf, hin⟩

/-- The layout of a product has no padding if and only if every byte lies in a field. -/
theorem Layout.hasPadding_iff {isMutable : Bool} (hpos : ∀ s ∈ slots, 0 < s.align) :
    (ofSlots isMutable slots).hasPadding = false ↔
      ∀ k, k < (ofSlots isMutable slots).size → Fills (ofSlots isMutable slots).fields k := by
  have halignment : 0 < (ofSlots isMutable slots).alignment := ofSlots_alignment_pos
  have hend : endFrom 0 slots ≤ (ofSlots isMutable slots).size := le_alignUp halignment
  show (hasGapFrom 0 slots || (ofSlots isMutable slots).size != endFrom 0 slots) = false ↔ _
  rw [Bool.or_eq_false_iff, bne_eq_false_iff_eq, hasGapFrom_iff hpos]
  constructor
  · rintro ⟨hfields, hsize⟩ k hk
    exact hfields k (Nat.zero_le k) (hsize ▸ hk)
  · intro hall
    refine ⟨fun k _ hk => hall k (Nat.lt_of_lt_of_le hk hend), ?_⟩
    -- Otherwise the byte where the last field ends is in no field.
    by_contra hsize
    obtain ⟨f, hf, hin⟩ := hall (endFrom 0 slots) (by omega)
    have hstop := (bounds_placeFrom hpos hf).2
    omega

end Slots

/-! ## What a field covers -/

namespace Descriptor

variable {d : Descriptor}

/-- Values of a type are a leaf, or are made of fields. -/
def IsPlain (d : Descriptor) : Prop :=
  (∃ size align, d.kind = .primitive size align) ∨ d.kind = .struct ∨ d.kind = .tuple

end Descriptor

namespace Registry

variable {r : Registry} {t u : TypeRef} {d : Descriptor} {l m : Layout} {f : FieldLayout} {k off : Nat}

/-- In a struct or tuple, padding is reported if and only if there are bytes in no field of it. -/
theorem Sound.hasPadding_iff (hr : r.Sound) (hd : r.table.descriptor t = .ok d)
    (hkind : d.kind = .struct ∨ d.kind = .tuple) (hl : r.layouts.find? t = some l) :
    l.hasPadding = false ↔ ∀ k, k < l.size → Layout.Fills l.fields k := by
  obtain ⟨d', hd', hdesc⟩ := hr.layouts.describes hl
  cases hd.symm.trans hd'
  obtain ⟨fields, -, hp⟩ := hdesc.product hkind
  obtain ⟨slots, -, halign, rfl, -⟩ := hr.layouts.product hp
  exact Layout.hasPadding_iff fun s hs => TypeTable.pos_of_alignment (halign s hs)

/-- Plain values with fields are structs or tuples. -/
theorem Sound.product_of_mem (hr : r.Sound) (hd : r.table.descriptor t = .ok d) (hplain : d.IsPlain)
    (hl : r.layouts.find? t = some l) (hf : f ∈ l.fields) : d.kind = .struct ∨ d.kind = .tuple := by
  rcases hplain with ⟨size, align, hkind⟩ | hkind
  · rw [hr.primitive_layout hd hkind hl] at hf
    cases hf
  · exact hkind

/-- What is stored inline is plain, and its type comes before that of the whole. -/
theorem Sound.inline_plain (hr : r.Sound) (ho : r.table.Ordered) (hd : r.table.descriptor t = .ok d)
    (hplain : d.IsPlain) (hl : r.layouts.find? t = some l) (hf : f ∈ l.fields) (hinline : f.isInline = true) :
    f.type.index < t.index ∧ ∃ e, r.table.descriptor f.type = .ok e ∧ e.IsPlain := by
  have hkind := hr.product_of_mem hd hplain hl hf
  obtain ⟨d', hd', hdesc⟩ := hr.layouts.describes hl
  cases hd.symm.trans hd'
  obtain ⟨fields, hfields, hp⟩ := hdesc.product hkind
  obtain ⟨slots, hslots, -, rfl, -⟩ := hr.layouts.product hp
  have hplaced := placed_placeFrom 0 slots
  rw [← map_of_placed hslots hplaced] at hfields
  refine ⟨ho.earlier hd (hfields.mentions _ (List.mem_map_of_mem hf)), ?_⟩
  obtain ⟨s, -, hs, hslot⟩ := LayoutMemo.Sound.slotFor_of_placed hslots hplaced hf
  cases hs with
  | inline inline found =>
    obtain ⟨e, he, ⟨-, hfalse⟩ | ⟨hmay, -⟩⟩ := inline
    · cases hfalse
    · exact ⟨e, he, (mayBeInline_iff.1 hmay).2⟩
  | reference =>
    have houtside := hslot.isInline_eq
    rw [hinline] at houtside
    cases houtside

/-- Leaves lie in fields. -/
theorem Covered.fills (hk : r.Covered t k) (hr : r.Sound) (hd : r.table.descriptor t = .ok d)
    (hkind : d.kind = .struct ∨ d.kind = .tuple) (hl : r.layouts.find? t = some l) : Layout.Fills l.fields k := by
  obtain ⟨off, n, leaf, hleaf, hlo, hhi⟩ := hk
  cases hleaf with
  | primitive descriptor kind =>
    cases hd.symm.trans descriptor
    rw [kind] at hkind
    rcases hkind with hkind | hkind <;> cases hkind
  | reference layout field =>
    cases layout.symm.trans hl
    exact ⟨_, field, hlo, hhi⟩
  | inline layout field inline inner =>
    cases layout.symm.trans hl
    obtain ⟨m, hm, -, hsize⟩ := hr.layouts.inline hl field inline
    have hend := inner.end_le hr hm
    exact ⟨_, field, by omega, by omega⟩

/-- A byte of an inline field is in a leaf of the whole if and only if it is in one of what is stored there. -/
theorem Sound.covered_inline_iff (hr : r.Sound) (hl : r.layouts.find? t = some l) (hf : f ∈ l.fields)
    (hinline : f.isInline = true) (hk : k < f.size) : r.Covered t (f.offset + k) ↔ r.Covered f.type k := by
  constructor
  · rintro ⟨off, n, leaf, hleaf, hlo, hhi⟩
    rcases hleaf.cases_field hr hl hf with ⟨-, off, rfl, hinner⟩ | ⟨houtside, -⟩ | hbeside
    · exact ⟨off, n, leaf, hinner, by omega, by omega⟩
    · rw [hinline] at houtside
      cases houtside
    · omega
  · rintro ⟨off, n, leaf, hleaf, hlo, hhi⟩
    exact ⟨_, n, leaf, .inline hl hf hinline hleaf, by omega, by omega⟩

/-! ## Padding at every depth -/

/-- What lies inside an inline field lies inside the whole. -/
theorem Inlines.inside (hin : r.Inlines f.type off u) (hanswer : ((layout t).runOn r).1 = .ok l)
    (hf : f ∈ l.fields) (hinline : f.isInline = true) : r.Inlines t (f.offset + off) u := by
  induction hin with
  | self =>
    have hfield := Inlines.field .self hanswer hf hinline
    rwa [Nat.zero_add] at hfield
  | field _ answer field inline ih =>
    rw [← Nat.add_assoc]
    exact ih.field answer field inline

/-- If every byte of a value is in a leaf, so is every byte of what lies inside it. -/
theorem Inlines.covered (hin : r.Inlines t off u) (hr : r.Sound) (ho : r.table.Ordered)
    (hd : r.table.descriptor t = .ok d) (hplain : d.IsPlain) (hl : r.layouts.find? t = some l)
    (hall : ∀ k, k < l.size → r.Covered t k) :
    ∃ e m, r.table.descriptor u = .ok e ∧ e.IsPlain ∧ r.layouts.find? u = some m ∧
      ∀ k, k < m.size → r.Covered u k := by
  induction hin with
  | self => exact ⟨d, l, hd, hplain, hl, hall⟩
  | @field _ _ _ f _ answer field inline ih =>
    obtain ⟨e, m, he, hplain, hm, hall⟩ := ih
    rw [runOn_layout hr hm] at answer
    cases answer
    obtain ⟨-, e', he', hplain'⟩ := hr.inline_plain ho he hplain hm field inline
    obtain ⟨m', hm', -, hsize⟩ := hr.layouts.inline hm field inline
    have hend := hr.layouts.end_le hm field
    refine ⟨e', m', he', hplain', hm', fun k hk => ?_⟩
    have hin : k < f.size := Nat.lt_of_lt_of_eq hk hsize
    exact (hr.covered_inline_iff hm field inline hin).1 (hall _ (by omega))

/-- No padding is reported where every byte is in a leaf. -/
theorem Sound.unpadded (hr : r.Sound) (hd : r.table.descriptor t = .ok d) (hplain : d.IsPlain)
    (hl : r.layouts.find? t = some l) (hall : ∀ k, k < l.size → r.Covered t k) : l.hasPadding = false := by
  rcases hplain with ⟨size, align, hkind⟩ | hkind
  · rw [hr.primitive_layout hd hkind hl]
    rfl
  · exact (hr.hasPadding_iff hd hkind hl).2 fun k hk => (hall k hk).fills hr hd hkind hl

/-- If no padding is reported for anything that lies inside a value, every byte is in a leaf. -/
theorem Sound.covered (hr : r.Sound) (ho : r.table.Ordered) (hd : r.table.descriptor t = .ok d)
    (hplain : d.IsPlain) (hl : r.layouts.find? t = some l)
    (hall : ∀ off u m, r.Inlines t off u → ((layout u).runOn r).1 = .ok m → m.hasPadding = false) :
    ∀ k, k < l.size → r.Covered t k := by
  -- Inline fields are covered because their types come before the type.
  induction hn : t.index using Nat.strongRecOn generalizing t d l with
  | ind n ih =>
    intro k hk
    have hanswer : ((layout t).runOn r).1 = .ok l := congrArg Prod.fst (runOn_layout hr hl)
    rcases id hplain with ⟨size, align, hkind⟩ | hkind
    · rw [hr.primitive_layout hd hkind hl] at hk
      exact ⟨0, size.toNat, some t, .primitive hd hkind, Nat.zero_le k, (Nat.zero_add size.toNat).symm ▸ hk⟩
    · obtain ⟨f, hf, hlo, hhi⟩ := (hr.hasPadding_iff hd hkind hl).1 (hall 0 t l .self hanswer) k hk
      obtain ⟨j, rfl⟩ := Nat.exists_eq_add_of_le hlo
      cases hinline : f.isInline with
      | false => exact ⟨f.offset, f.size, none, .reference hl hf hinline, hlo, hhi⟩
      | true =>
        obtain ⟨hearlier, e, he, hplain'⟩ := hr.inline_plain ho hd hplain hl hf hinline
        obtain ⟨m, hm, -, hsize⟩ := hr.layouts.inline hl hf hinline
        have hj : j < f.size := Nat.lt_of_add_lt_add_left hhi
        refine (hr.covered_inline_iff hl hf hinline hj).2 (ih _ (hn ▸ hearlier) he hplain' hm ?_ rfl j ?_)
        · exact fun off u m hin => hall _ u m (hin.inside hanswer hf hinline)
        · exact Nat.lt_of_lt_of_eq hj hsize.symm

/-- Every byte of a value is in a leaf if and only if no padding is reported at any depth. -/
theorem Sound.covered_iff (hr : r.Sound) (ho : r.table.Ordered) (hd : r.table.descriptor t = .ok d)
    (hplain : d.IsPlain) (hl : r.layouts.find? t = some l) :
    (∀ k, k < l.size → r.Covered t k) ↔
      ∀ off u m, r.Inlines t off u → ((layout u).runOn r).1 = .ok m → m.hasPadding = false := by
  refine ⟨fun hall off u m hin hanswer => ?_, hr.covered ho hd hplain hl⟩
  obtain ⟨e, m', he, hplain', hm, hall'⟩ := hin.covered hr ho hd hplain hl hall
  rw [runOn_layout hr hm] at hanswer
  cases hanswer
  exact hr.unpadded he hplain' hm hall'

end Registry

end TypedHeap
