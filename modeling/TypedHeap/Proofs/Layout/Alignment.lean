import TypedHeap.Proofs.Layout.Placement

/-!
# Alignment

Of two alignments one divides the other, so whatever lies at a multiple of the greater one lies at a multiple of the
smaller one too. Inline fields take advantage of that at every depth. Sizes are rounded up to the alignment, except
those of primitive types, which are what they were declared to be.

* `Registry.Inlines`: what lies inside a value, at whatever depth of inline fields.

Main results: `LayoutMemo.Sound.dvd_size`, `Registry.Inlines.aligned`.
-/

namespace TypedHeap

open Layouts

/-! ## Alignments divide each other -/

namespace TypeTable

variable {a b : Nat}

theorem dvd_of_le_alignment (ha : a ∈ alignments) (hb : b ∈ alignments) (hle : a ≤ b) : a ∣ b := by
  have hall : ∀ a ∈ alignments, ∀ b ∈ alignments, a ≤ b → a ∣ b := by decide
  exact hall a ha b hb hle

end TypeTable

/-! ## Layouts that are remembered -/

namespace LayoutMemo.Sound

variable {tt : TypeTable} {m : LayoutMemo} {t : TypeRef} {d : Descriptor} {l : Layout} {f : FieldLayout}

/-- The size of a type is a multiple of its alignment, unless the type is primitive. -/
theorem dvd_size (h : m.Sound tt) (hd : tt.descriptor t = .ok d) (hl : m.find? t = some l)
    (hkind : ∀ size align, d.kind ≠ .primitive size align) : l.alignment ∣ l.size := by
  obtain ⟨d', hd', hdesc⟩ := h.describes hl
  cases hd.symm.trans hd'
  rcases hdesc.cases with ⟨fields, -, hp⟩ | ⟨size, align, hprimitive, -⟩ | ⟨size, pointers, hdvd, rfl⟩
  · obtain ⟨slots, -, -, rfl, -⟩ := h.product hp
    exact dvd_alignUp _ _
  · exact absurd hprimitive (hkind size align)
  · exact hdvd

/-- An inline field begins at a multiple of the alignment of its type, which divides that of the whole. -/
theorem inline_aligned (h : m.Sound tt) (hl : m.find? t = some l) (hf : f ∈ l.fields) (hinline : f.isInline = true) :
    ∃ k, m.find? f.type = some k ∧ k.alignment ∣ f.offset ∧ k.alignment ∣ l.alignment := by
  have hmem := h.aligned hl
  obtain ⟨isMutable, fields, slots, hslots, -, rfl⟩ := h.product_of_mem hl hf
  obtain ⟨s, hs, hslot, hplaced⟩ := slotFor_of_placed hslots (placed_placeFrom 0 slots) hf
  cases hslot with
  | @inline k _ found =>
    have hle : k.alignment ≤ (Layout.ofSlots isMutable slots).alignment :=
      (isGreatest_foldl_align 1 slots).2 (.inr (List.mem_map_of_mem hs))
    refine ⟨k, found, hplaced.dvd_offset, ?_⟩
    exact TypeTable.dvd_of_le_alignment (h.aligned found) hmem hle
  | reference _ =>
    have houtside := hplaced.isInline_eq
    rw [hinline] at houtside
    cases houtside

end LayoutMemo.Sound

/-! ## Values inside values -/

namespace Registry

variable {r : Registry} {t u : TypeRef} {l : Layout} {off : Nat}

/-- What a value of a type has inside it at an offset: itself, and the inline fields of what is inside it. -/
inductive Inlines (r : Registry) (t : TypeRef) : Nat → TypeRef → Prop
  | self : Inlines r t 0 t
  | field {off : Nat} {u : TypeRef} {l : Layout} {f : FieldLayout} (outer : Inlines r t off u)
      (answer : ((layout u).runOn r).1 = .ok l) (field : f ∈ l.fields) (inline : f.isInline = true) :
      Inlines r t (off + f.offset) f.type

/-- By induction on the depth: what is inside a value begins at a multiple of its own alignment. -/
theorem Inlines.aligned (hin : r.Inlines t off u) (hr : r.Sound)
    (hl : r.layouts.find? t = some l) :
    ∃ k, r.layouts.find? u = some k ∧ k.alignment ∣ off ∧ k.alignment ∣ l.alignment := by
  induction hin with
  | self => exact ⟨l, hl, Nat.dvd_zero _, Nat.dvd_refl _⟩
  | field _ answer field inline ih =>
    obtain ⟨k, hk, hoffset, hwhole⟩ := ih
    rw [runOn_layout hr hk] at answer
    cases answer
    obtain ⟨k', hk', hoffset', hdvd⟩ := hr.layouts.inline_aligned hk field inline
    exact ⟨k', hk', Nat.dvd_add (Nat.dvd_trans hdvd hoffset) hoffset', Nat.dvd_trans hdvd hwhole⟩

theorem runOn_alignmentOf (hr : r.Sound) (hl : r.layouts.find? t = some l) :
    (alignmentOf t).runOn r = (.ok l.alignment, r) :=
  Action.runOn_bind_ok (runOn_layout hr hl)

end Registry

end TypedHeap
