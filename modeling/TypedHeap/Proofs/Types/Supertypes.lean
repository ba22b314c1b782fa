import TypedHeap.Proofs.Types.Hierarchy

/-!
# Chains of supertypes

The supertype of a type is there before the type itself is, so a chain of supertypes leads to smaller and
smaller numbers and comes to an end. The subtype test, which follows a chain for a limited number of links,
sees all of it, and so what it decides is a preorder.

* `TypeTable.Declares`: one link, from a type to the supertype that its family declares.
* `TypeTable.Rising`: links lead to smaller numbers.

Main results: `Path.rising`, `below_iff`, `isa_trans`.
-/

namespace TypedHeap.TypeTable

variable {tt tt' : TypeTable} {s t u x : TypeRef} {d : Descriptor}

/-! ## Links -/

/-- The family of one type declares another one as the supertype. -/
def Declares (tt : TypeTable) (s u : TypeRef) : Prop :=
  ∃ d, tt.descriptor s = .ok d ∧ d.supertype = some u

/-- Supertypes have smaller numbers than the types below them. -/
def Rising (tt : TypeTable) : Prop := ∀ {s u}, tt.Declares s u → u.index < s.index

theorem declares_iff (hd : tt.descriptor s = .ok d) : tt.Declares s u ↔ d.supertype = some u := by
  simp only [Declares, hd, Except.ok.injEq, exists_eq_left']

/-- The chain from a type goes on from the only supertype that it has. -/
theorem reflTransGen_declares_iff (hd : tt.descriptor s = .ok d) :
    Relation.ReflTransGen tt.Declares s t ↔
      s = t ∨ ∃ u, d.supertype = some u ∧ Relation.ReflTransGen tt.Declares u t := by
  rw [Relation.ReflTransGen.cases_head_iff]
  simp only [declares_iff hd]

/-- Nothing is above the first type. -/
theorem Sound.eq_any_of_chain (hs : tt.Sound) (h : Relation.ReflTransGen tt.Declares Builtin.any t) :
    t = Builtin.any := by
  have hsup {d : Descriptor} (hd : tt.descriptor Builtin.any = .ok d) : d.supertype = none := by
    cases (hs.builtin.descriptor rfl).symm.trans hd
    rfl
  rcases h.cases_head with h | ⟨u, ⟨d, hd, hu⟩, -⟩
  · exact h.symm
  · rw [hsup hd] at hu
    cases hu

/-! ## Links lead to smaller numbers -/

theorem Step.rising (h : tt.Step tt') (hb : tt.BelowAbstract) (hr : tt.Rising) : tt'.Rising := by
  intro s u hsu
  cases h with
  | family => exact hr hsu
  | applied declared next =>
    obtain ⟨d, hd, hu⟩ := hsu
    rcases (descriptor_addInstance next).1 hd with hd | ⟨rfl, rfl⟩
    · exact hr ⟨d, hd, hu⟩
    · -- The new instance comes last, and what its family declares was registered with the family.
      obtain ⟨e, he, -⟩ := hb declared hu
      have hcontains := contains_iff.2 ⟨e, he⟩
      simp only [contains, decide_eq_true_eq] at hcontains
      rw [index_of_nextRef next]
      omega

theorem Path.rising (h : Path tt tt') (hb : tt.BelowAbstract) (hr : tt.Rising) : tt'.Rising := by
  induction h with
  | refl => exact hr
  | tail before step ih => exact step.rising (Path.belowAbstract before hb) ih

theorem rising_builtin : TypeTable.builtin.Rising := by
  rintro s u ⟨d, hd, hu⟩
  have hall : ∀ d ∈ builtin.types.toList, d.supertype = none ∨
      (d.supertype = some Builtin.any ∧ Builtin.any.index < d.ref.index) := by decide
  have hmem : d ∈ builtin.types.toList := Array.mem_toList_iff.2 (Array.mem_of_getElem? (descriptor_eq_ok.1 hd))
  rcases hall d hmem with hnone | ⟨hany, hlt⟩
  · cases hnone.symm.trans hu
  · cases hany.symm.trans hu
    rwa [← sound_builtin.ref_eq hd]

/-! ## The test follows the whole chain -/

/-- A chain that starts at a number no greater than the number of links to follow is followed to its end. -/
theorem chainMeets_iff (hr : tt.Rising) {steps : Nat} (hsteps : u.index ≤ steps) :
    tt.chainMeets t steps (some u) = .ok true ↔ Relation.ReflTransGen tt.Declares u t := by
  induction steps generalizing u with
  | zero => exact absurd u.pos (by omega)
  | succ steps ih =>
    unfold chainMeets
    by_cases hut : u = t
    · rw [if_pos hut, hut]
      exact ⟨fun _ => .refl, fun _ => rfl⟩
    · rw [if_neg hut]
      cases hd : tt.descriptor u with
      | error e =>
        constructor
        · intro h
          cases h
        · intro h
          obtain ⟨v, ⟨d, hd', -⟩, -⟩ := h.cases_head.resolve_left hut
          cases hd.symm.trans hd'
      | ok d =>
        rw [reflTransGen_declares_iff hd, or_iff_right hut]
        show tt.chainMeets t steps d.supertype = .ok true ↔ _
        cases hsup : d.supertype with
        | none => cases steps <;> simp [chainMeets]
        | some v =>
          have hlt := hr ⟨d, hd, hsup⟩
          rw [ih (by omega)]
          simp only [Option.some.injEq, exists_eq_left']

/-- A type ascends to what its chain of supertypes reaches. -/
theorem ascends_iff (hr : tt.Rising) (hs : tt.contains s = true) :
    tt.Ascends s t ↔ Relation.ReflTransGen tt.Declares s t := by
  obtain ⟨d, hd⟩ := contains_iff.1 hs
  simp only [Ascends, hd, Except.ok.injEq, exists_eq_left']
  rw [reflTransGen_declares_iff hd]
  refine or_congr_right ?_
  cases hsup : d.supertype with
  | none => cases s.index <;> simp [chainMeets]
  | some u =>
    have hlt := hr ⟨d, hd, hsup⟩
    rw [chainMeets_iff hr (by omega)]
    simp only [Option.some.injEq, exists_eq_left']

/-- One type is below another one if each of its atoms has one of the other's atoms on its chain. -/
theorem below_iff (hs : tt.Sound) (hr : tt.Rising) : tt.Below s t ↔
    t = Builtin.any ∨ s = t ∨ ∀ x, tt.Atom [s] x → ∃ y, tt.Atom [t] y ∧ Relation.ReflTransGen tt.Declares x y := by
  have hatoms : (∀ x, tt.Atom [s] x → ∃ y, tt.Atom [t] y ∧ tt.Ascends x y) ↔
      ∀ x, tt.Atom [s] x → ∃ y, tt.Atom [t] y ∧ Relation.ReflTransGen tt.Declares x y := by
    refine forall₂_congr fun x hx => ?_
    obtain ⟨d, hd, -⟩ := hs.atom hx
    simp only [ascends_iff hr (contains_iff.2 ⟨d, hd⟩)]
  rw [Below, hatoms]
  refine or_congr_right ⟨.inr, fun h => h.elim ?_ id⟩
  rintro rfl
  exact fun x hx => ⟨x, hx, .refl⟩

/-! ## The test is transitive -/

theorem below_trans (hs : tt.Sound) (hr : tt.Rising) (hst : tt.Below s t) (htu : tt.Below t u) :
    tt.Below s u := by
  rw [below_iff hs hr] at hst htu ⊢
  rcases htu with hu | rfl | htu
  · exact .inl hu
  · exact hst
  · rcases hst with rfl | rfl | hst
    · -- Whatever is above the first type, which is its own only atom, is the first type.
      obtain ⟨y, hy, hchain⟩ := htu Builtin.any (hs.atom_any.2 (List.mem_singleton.2 rfl))
      rw [hs.eq_any_of_chain hchain] at hy
      exact .inl (List.mem_singleton.1 (hs.atom_any.1 hy)).symm
    · exact .inr (.inr htu)
    · refine .inr (.inr fun x hx => ?_)
      obtain ⟨y, hy, hxy⟩ := hst x hx
      obtain ⟨z, hz, hyz⟩ := htu y hy
      exact ⟨z, hz, hxy.trans hyz⟩

theorem isa_trans (hs : tt.Sound) (ho : tt.Ordered) (hb : tt.BelowAbstract) (hr : tt.Rising)
    (hsc : tt.contains s = true) (htc : tt.contains t = true) (huc : tt.contains u = true)
    (hst : tt.isa s t = .ok true) (htu : tt.isa t u = .ok true) : tt.isa s u = .ok true := by
  rw [isa_iff hs ho hb hsc htc] at hst
  rw [isa_iff hs ho hb htc huc] at htu
  exact (isa_iff hs ho hb hsc huc).2 (below_trans hs hr hst htu)

end TypedHeap.TypeTable
