import TypedHeap.Proofs.Types.Growth

/-!
# Subtyping in a growing table

The subtype test only looks at types that are registered already, so an answer that it has given once
it gives for ever.

* `TypeTable.BelowAbstract`: declared supertypes are abstract, so nothing but itself is below a type that
  has instances of its own.

Main results: `TypeTable.Extends.isa`, `TypeTable.eq_of_isa`.
-/

namespace TypedHeap.TypeTable

variable {tt tt' : TypeTable} {s t : TypeRef}

theorem Extends.chainMeets (h : tt.Extends tt') {steps : Nat} {cur : Option TypeRef} {b : Bool}
    (hb : tt.chainMeets t steps cur = .ok b) : tt'.chainMeets t steps cur = .ok b := by
  induction steps generalizing cur with
  | zero => cases cur <;> exact hb
  | succ steps ih =>
    cases cur with
    | none => exact hb
    | some s =>
      unfold TypeTable.chainMeets at hb ⊢
      by_cases hs : s = t
      · rw [if_pos hs] at hb ⊢
        exact hb
      · rw [if_neg hs] at hb ⊢
        obtain ⟨d, hd, hb⟩ := bind_eq_ok.1 hb
        exact bind_eq_ok.2 ⟨d, h.descriptor hd, ih hb⟩

/-- A test of all members of a list goes the same way when each single test does. -/
theorem allM_eq_ok {α : Type} {p q : α → Except Error Bool} {l : List α} {b : Bool}
    (h : ∀ a b, p a = .ok b → q a = .ok b) (hb : l.allM p = .ok b) : l.allM q = .ok b := by
  induction l with
  | nil => exact hb
  | cons a l ih =>
    obtain ⟨c, hc, hb⟩ := bind_eq_ok.1 hb
    refine bind_eq_ok.2 ⟨c, h a c hc, ?_⟩
    cases c with
    | true => exact ih hb
    | false => exact hb

theorem anyM_eq_ok {α : Type} {p q : α → Except Error Bool} {l : List α} {b : Bool}
    (h : ∀ a b, p a = .ok b → q a = .ok b) (hb : l.anyM p = .ok b) : l.anyM q = .ok b := by
  induction l with
  | nil => exact hb
  | cons a l ih =>
    obtain ⟨c, hc, hb⟩ := bind_eq_ok.1 hb
    refine bind_eq_ok.2 ⟨c, h a c hc, ?_⟩
    cases c with
    | true => exact hb
    | false => exact ih hb

theorem Extends.isaWithin (h : tt.Extends tt') {depth : Nat} {b : Bool}
    (hb : tt.isaWithin depth s t = .ok b) : tt'.isaWithin depth s t = .ok b := by
  induction depth generalizing s t b with
  | zero => exact hb
  | succ depth ih =>
    unfold TypeTable.isaWithin at hb ⊢
    by_cases htop : s = t ∨ t = Builtin.any
    · rw [if_pos htop] at hb ⊢
      exact hb
    · rw [if_neg htop] at hb ⊢
      obtain ⟨sub, hsub, hb⟩ := bind_eq_ok.1 hb
      refine bind_eq_ok.2 ⟨sub, h.descriptor hsub, ?_⟩
      by_cases hunion : sub.kind = .union
      · rw [if_pos hunion] at hb ⊢
        exact allM_eq_ok (fun _ _ => ih) hb
      · rw [if_neg hunion] at hb ⊢
        obtain ⟨sup, hsup, hb⟩ := bind_eq_ok.1 hb
        refine bind_eq_ok.2 ⟨sup, h.descriptor hsup, ?_⟩
        by_cases hunion : sup.kind = .union
        · rw [if_pos hunion] at hb ⊢
          exact anyM_eq_ok (fun _ _ => ih) hb
        · rw [if_neg hunion] at hb ⊢
          exact h.chainMeets hb

/-- A type is below itself. -/
theorem isa_self (tt : TypeTable) (t : TypeRef) : tt.isa t t = .ok true := by
  obtain ⟨depth, hdepth⟩ : ∃ depth, t.index + t.index = depth + 1 :=
    ⟨t.index + t.index - 1, by have := t.pos; omega⟩
  rw [isa, hdepth, isaWithin, if_pos (.inl rfl)]
  rfl

/-- Everything may stand where anything is asked for. -/
theorem isa_any (tt : TypeTable) (t : TypeRef) : tt.isa t Builtin.any = .ok true := by
  obtain ⟨n, hn⟩ := Nat.exists_eq_add_one_of_ne_zero (Nat.ne_of_gt (Nat.add_pos_left t.pos Builtin.any.index))
  rw [isa, hn]
  exact if_pos (.inr rfl)

/-- What was below a type stays below it, and what was not stays so. -/
theorem Extends.isa (h : tt.Extends tt') {b : Bool} (hb : tt.isa s t = .ok b) :
    tt'.isa s t = .ok b :=
  h.isaWithin hb

/-! ## Supertypes -/

/-- Every declared supertype is abstract. -/
def BelowAbstract (tt : TypeTable) : Prop :=
  ∀ {name f s}, tt.family? name = some f → f.supertype = some s →
    ∃ d, tt.descriptor s = .ok d ∧ d.kind = .abstract

theorem abstract_of_validate {d : Declaration} (h : tt.validate d = .ok ()) :
    ∃ sup, tt.descriptor d.supertype = .ok sup ∧ sup.kind = .abstract := by
  unfold validate at h
  split at h
  · cases h
  · obtain ⟨_, -, h⟩ := bind_eq_ok.1 h
    obtain ⟨_, -, h⟩ := bind_eq_ok.1 h
    obtain ⟨sup, hsup, h⟩ := bind_eq_ok.1 h
    refine ⟨sup, hsup, ?_⟩
    split at h
    · obtain ⟨_, -, h⟩ := bind_eq_ok.1 h
      cases h
    · rename_i habstract
      simpa [Family.isAbstract, Descriptor.kind] using habstract

theorem Step.belowAbstract (h : tt.Step tt') (hb : tt.BelowAbstract) : tt'.BelowAbstract := by
  intro name f s hf hs
  have hbefore : ∃ d, tt.descriptor s = .ok d ∧ d.kind = .abstract := by
    cases h with
    | family e valid free =>
      rw [family?_addFamily] at hf
      split at hf
      · cases hf
        cases hs
        exact abstract_of_validate valid
      · exact hb hf hs
    | applied => exact hb hf hs
  obtain ⟨d, hd, hkind⟩ := hbefore
  exact ⟨d, h.extends.descriptor hd, hkind⟩

theorem Path.belowAbstract (h : Path tt tt') (hb : tt.BelowAbstract) : tt'.BelowAbstract := h.preserves Step.belowAbstract hb

theorem belowAbstract_builtin : TypeTable.builtin.BelowAbstract := by
  intro name f s hf hs
  have hall : ∀ f ∈ builtin.families, f.supertype = none ∨ f.supertype = some Builtin.any := by decide
  rcases hall f (List.mem_of_find?_eq_some hf) with h | h
  · cases h.symm.trans hs
  · cases h.symm.trans hs
    exact ⟨_, rfl, rfl⟩

variable {d e : Descriptor}

/-- A chain of supertypes does not lead to a type that is not abstract. -/
theorem chainMeets_ne_true (hs : tt.Sound) (hb : tt.BelowAbstract) (hd : tt.descriptor t = .ok d)
    (hconcrete : d.kind ≠ .abstract) {steps : Nat} (he : tt.descriptor s = .ok e) :
    tt.chainMeets t steps e.supertype ≠ .ok true := by
  induction steps generalizing s e with
  | zero => cases e.supertype <;> exact nofun
  | succ steps ih =>
    cases hsup : e.supertype with
    | none => exact nofun
    | some u =>
      obtain ⟨sup, hsup, hkind⟩ := hb (hs.family_eq he) hsup
      unfold chainMeets
      refine fun htrue => ih hsup ?_
      have hne : u ≠ t := by
        rintro rfl
        cases hsup.symm.trans hd
        exact hconcrete hkind
      rw [if_neg hne] at htrue
      obtain ⟨sup', hsup', htrue⟩ := bind_eq_ok.1 htrue
      cases hsup.symm.trans hsup'
      exact htrue

/-- Below a type that may have instances of its own there is nothing else but unions. -/
theorem eq_of_isa (hs : tt.Sound) (hb : tt.BelowAbstract) (hd : tt.descriptor t = .ok d)
    (hconcrete : d.kind ≠ .abstract ∧ d.kind ≠ .union) (he : tt.descriptor s = .ok e) (hunion : e.kind ≠ .union)
    (h : tt.isa s t = .ok true) : s = t := by
  by_contra hne
  have hany : t ≠ Builtin.any := by
    rintro rfl
    cases (hs.builtin.descriptor rfl).symm.trans hd
    exact hconcrete.1 rfl
  unfold isa at h
  obtain ⟨depth, hdepth⟩ : ∃ depth, s.index + t.index = depth + 1 :=
    ⟨s.index + t.index - 1, by have := t.pos; omega⟩
  rw [hdepth, isaWithin, if_neg (not_or.2 ⟨hne, hany⟩)] at h
  obtain ⟨e', he', h⟩ := bind_eq_ok.1 h
  cases he.symm.trans he'
  rw [if_neg hunion] at h
  obtain ⟨d', hd', h⟩ := bind_eq_ok.1 h
  cases hd.symm.trans hd'
  rw [if_neg hconcrete.2] at h
  exact chainMeets_ne_true hs hb hd hconcrete.1 he h

end TypedHeap.TypeTable
