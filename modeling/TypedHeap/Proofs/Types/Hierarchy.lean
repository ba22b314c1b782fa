import TypedHeap.Proofs.Types.Order
import TypedHeap.Proofs.Types.Subtype

/-!
# Subtyping by atoms

The subtype test opens unions, first on the left and then on the right, and follows the declared supertypes
of what is left. It always comes to an end with an answer: one type is below another one exactly if each of
its atoms ascends to one of the other's.

* `TypeTable.Ascends`: a type is another one, or has it on its chain of declared supertypes.
* `TypeTable.Below`: the meaning of the test.

Main results: `isa_decides`, `isa_iff`, `isa_decides_atom`.
-/

namespace TypedHeap.TypeTable

variable {tt : TypeTable} {s t u x : TypeRef} {d e : Descriptor} {n : Nat}

/-! ## The meaning of the test -/

/-- A type is another one, or has it on its chain of declared supertypes. -/
def Ascends (tt : TypeTable) (s t : TypeRef) : Prop :=
  s = t ∨ ∃ d, tt.descriptor s = .ok d ∧ tt.chainMeets t s.index d.supertype = .ok true

/-- Everything is below the first type. Apart from that, each atom of a type that is below another one
ascends to one of the other's. -/
def Below (tt : TypeTable) (s t : TypeRef) : Prop :=
  t = Builtin.any ∨ ∀ x, tt.Atom [s] x → ∃ y, tt.Atom [t] y ∧ tt.Ascends x y

/-- A question about types gets an answer, and the answer is right. -/
def Decides (r : Except Error Bool) (P : Prop) : Prop := ∃ b, r = .ok b ∧ (b = true ↔ P)

theorem Decides.congr {r : Except Error Bool} {P Q : Prop} (h : Decides r P) (hPQ : P ↔ Q) : Decides r Q := by
  obtain ⟨b, hb, hP⟩ := h
  exact ⟨b, hb, hP.trans hPQ⟩

theorem Decides.eq_ok_iff {r : Except Error Bool} {P : Prop} (h : Decides r P) : r = .ok true ↔ P := by
  obtain ⟨b, rfl, hP⟩ := h
  rw [← hP]
  exact ⟨fun h => Except.ok.inj h, fun h => congrArg Except.ok h⟩

/-! ## All and any -/

section Lists

variable {α : Type} {p : α → Except Error Bool} {P : α → Prop} {l : List α}

theorem decides_allM (h : ∀ a ∈ l, Decides (p a) (P a)) : Decides (l.allM p) (∀ a ∈ l, P a) := by
  induction l with
  | nil => exact ⟨true, rfl, fun _ => nofun, fun _ => rfl⟩
  | cons a l ih =>
    rw [List.forall_mem_cons] at h
    obtain ⟨b, hb, hP⟩ := h.1
    obtain ⟨c, hc, hPs⟩ := ih h.2
    have hall : (a :: l).allM p = .ok (b && c) := bind_eq_ok.2 ⟨b, hb, by cases b; exacts [rfl, hc]⟩
    refine ⟨b && c, hall, ?_⟩
    rw [List.forall_mem_cons, ← hP, ← hPs, Bool.and_eq_true]

theorem decides_anyM (h : ∀ a ∈ l, Decides (p a) (P a)) : Decides (l.anyM p) (∃ a ∈ l, P a) := by
  induction l with
  | nil => exact ⟨false, rfl, nofun, fun ⟨_, ha, _⟩ => nomatch ha⟩
  | cons a l ih =>
    rw [List.forall_mem_cons] at h
    obtain ⟨b, hb, hP⟩ := h.1
    obtain ⟨c, hc, hPs⟩ := ih h.2
    have hany : (a :: l).anyM p = .ok (b || c) := bind_eq_ok.2 ⟨b, hb, by cases b; exacts [hc, rfl]⟩
    refine ⟨b || c, hany, ?_⟩
    rw [List.exists_mem_cons_iff, ← hP, ← hPs, Bool.or_eq_true]

end Lists

/-! ## Types that are no unions -/

/-- A chain of declared supertypes is registered all the way up. -/
theorem exists_chainMeets (hs : tt.Sound) (hb : tt.BelowAbstract) (hd : tt.descriptor s = .ok d) (steps : Nat) :
    ∃ b, tt.chainMeets t steps d.supertype = .ok b := by
  induction steps generalizing s d with
  | zero => cases d.supertype <;> exact ⟨_, rfl⟩
  | succ steps ih =>
    cases hsup : d.supertype with
    | none => exact ⟨_, rfl⟩
    | some u =>
      obtain ⟨sup, hu, -⟩ := hb (hs.family_eq hd) hsup
      unfold chainMeets
      split
      · exact ⟨_, rfl⟩
      · exact exists_bind hu (ih hu)

theorem isaWithin_single (hs : tt.Sound) (hb : tt.BelowAbstract) (hd : tt.descriptor s = .ok d)
    (hkind : d.kind ≠ .union) (he : tt.descriptor t = .ok e) (hkind' : e.kind ≠ .union) :
    Decides (tt.isaWithin (n + 1) s t) (t = Builtin.any ∨ tt.Ascends s t) := by
  have hchain : tt.Ascends s t ↔ s = t ∨ tt.chainMeets t s.index d.supertype = .ok true := by
    simp only [Ascends, hd, Except.ok.injEq, exists_eq_left']
  rw [isaWithin]
  by_cases htop : s = t ∨ t = Builtin.any
  · rw [if_pos htop, hchain]
    exact ⟨true, rfl, fun _ => htop.symm.imp_right .inl, fun _ => rfl⟩
  · obtain ⟨b, hb⟩ := exists_chainMeets (t := t) hs hb hd s.index
    rw [if_neg htop, hd]
    show Decides (if d.kind = .union then _ else _) _
    rw [if_neg hkind, he]
    show Decides (if e.kind = .union then _ else _) _
    rw [if_neg hkind', hb]
    rw [hchain, hb]
    rw [not_or] at htop
    exact ⟨b, rfl, fun h => .inr (.inr (by rw [h])), fun h => by simpa [htop] using h⟩

/-! ## Unions -/

/-- A union is neither a type that is none nor the first type. -/
theorem Sound.union_ne_any (hs : tt.Sound) (hd : tt.descriptor t = .ok d) (hkind : d.kind = .union) :
    t ≠ Builtin.any := by
  obtain ⟨e, he, hkind'⟩ := hs.descriptor_any
  rintro rfl
  cases hd.symm.trans he
  rw [hkind] at hkind'
  cases hkind'

/-- The test of a type that is no union opens the union on the right. -/
theorem isaWithin_atom (hs : tt.Sound) (hb : tt.BelowAbstract) (hd : tt.descriptor s = .ok d)
    (hkind : d.kind ≠ .union) (he : tt.descriptor t = .ok e) (hn : s.index + t.index ≤ n) :
    Decides (tt.isaWithin n s t) (t = Builtin.any ∨ ∃ y, tt.Atom [t] y ∧ tt.Ascends s y) := by
  have hspos := s.pos
  have htpos := t.pos
  obtain ⟨n, rfl⟩ : ∃ m, n = m + 2 := ⟨n - 2, by omega⟩
  by_cases hkind' : e.kind = .union
  · have hany := hs.union_ne_any he hkind'
    have hne : s ≠ t := by
      rintro rfl
      cases hd.symm.trans he
      exact hkind hkind'
    have hmembers : ∀ y ∈ e.memberTypes, Decides (tt.isaWithin (n + 1) s y) (tt.Ascends s y) := fun y hy => by
      have hy := (atom_union he hkind').2 hy
      obtain ⟨f, hf, hkind''⟩ := hs.atom hy
      refine (isaWithin_single hs hb hd hkind hf hkind'').congr (or_iff_right ?_)
      rintro rfl
      exact hany (List.mem_singleton.1 (hs.atom_any.1 hy)).symm
    rw [isaWithin, if_neg (not_or.2 ⟨hne, hany⟩), hd]
    show Decides (if d.kind = .union then _ else _) _
    rw [if_neg hkind, he]
    show Decides (if e.kind = .union then _ else _) _
    rw [if_pos hkind']
    refine (decides_anyM hmembers).congr ?_
    simp only [hany, false_or, atom_union he hkind']
  · refine (isaWithin_single hs hb hd hkind he hkind').congr ?_
    simp only [atom_single he hkind', exists_eq_left]

/-- The test opens the union on the left. -/
theorem isaWithin_decides (hs : tt.Sound) (ho : tt.Ordered) (hb : tt.BelowAbstract)
    (hd : tt.descriptor s = .ok d) (he : tt.descriptor t = .ok e) (hn : s.index + t.index ≤ n) :
    Decides (tt.isaWithin n s t) (tt.Below s t) := by
  have hspos := s.pos
  by_cases hkind : d.kind = .union
  · obtain ⟨n, rfl⟩ : ∃ m, n = m + 1 := ⟨n - 1, by omega⟩
    rw [isaWithin]
    by_cases htop : s = t ∨ t = Builtin.any
    · rw [if_pos htop]
      refine ⟨true, rfl, fun _ => ?_, fun _ => rfl⟩
      rcases htop with rfl | htop
      · exact .inr fun x hx => ⟨x, hx, .inl rfl⟩
      · exact .inl htop
    · have hany := (not_or.1 htop).2
      rw [if_neg htop, hd]
      show Decides (if d.kind = .union then _ else _) _
      rw [if_pos hkind]
      refine (decides_allM fun x hx => ?_).congr (P := ∀ x ∈ d.memberTypes, ∃ y, tt.Atom [t] y ∧ tt.Ascends x y) ?_
      · obtain ⟨f, hf, hkind'⟩ := hs.atom ((atom_union hd hkind).2 hx)
        have hlt := ho.earlier hd (.inl hx)
        exact (isaWithin_atom hs hb hf hkind' he (by omega)).congr (or_iff_right hany)
      · simp only [Below, hany, false_or, atom_union hd hkind]
  · refine (isaWithin_atom hs hb hd hkind he hn).congr ?_
    simp only [Below, atom_single hd hkind, forall_eq]

/-! ## The test -/

/-- The test has an answer for any two types that are registered. -/
theorem isa_decides (hs : tt.Sound) (ho : tt.Ordered) (hb : tt.BelowAbstract) (hsc : tt.contains s = true)
    (htc : tt.contains t = true) : Decides (tt.isa s t) (tt.Below s t) := by
  obtain ⟨d, hd⟩ := contains_iff.1 hsc
  obtain ⟨e, he⟩ := contains_iff.1 htc
  exact isaWithin_decides hs ho hb hd he (Nat.le_refl _)

theorem isa_iff (hs : tt.Sound) (ho : tt.Ordered) (hb : tt.BelowAbstract) (hsc : tt.contains s = true)
    (htc : tt.contains t = true) : tt.isa s t = .ok true ↔ tt.Below s t :=
  (isa_decides hs ho hb hsc htc).eq_ok_iff

/-! ## Types with instances of their own -/

/-- Nothing but itself ascends to a type that is not abstract. -/
theorem Ascends.eq_of_concrete (h : tt.Ascends s t) (hs : tt.Sound) (hb : tt.BelowAbstract)
    (hd : tt.descriptor t = .ok d) (hconcrete : d.kind ≠ .abstract) : s = t := by
  rcases h with rfl | ⟨e, he, hchain⟩
  · rfl
  · exact absurd hchain (chainMeets_ne_true hs hb hd hconcrete he)

/-- If no atom of a type is abstract, its atoms are what is below it. -/
theorem isa_decides_atom (hs : tt.Sound) (hb : tt.BelowAbstract) (hd : tt.descriptor s = .ok d)
    (hkind : d.kind ≠ .union) (he : tt.descriptor t = .ok e)
    (hconcrete : ∀ y, tt.Atom [t] y → ∃ c, tt.descriptor y = .ok c ∧ c.kind ≠ .abstract) :
    Decides (tt.isa s t) (tt.Atom [t] s) := by
  have hany : t ≠ Builtin.any := by
    rintro rfl
    obtain ⟨c, hc, hkind⟩ := hconcrete _ (hs.atom_any.2 (List.mem_singleton.2 rfl))
    obtain ⟨c', hc', hkind'⟩ := hs.descriptor_any
    cases hc.symm.trans hc'
    exact hkind hkind'
  refine (isaWithin_atom hs hb hd hkind he (Nat.le_refl _)).congr ((or_iff_right hany).trans ⟨?_, ?_⟩)
  · rintro ⟨y, hy, hsy⟩
    obtain ⟨c, hc, hkind⟩ := hconcrete y hy
    rwa [hsy.eq_of_concrete hs hb hc hkind]
  · exact fun hatom => ⟨s, hatom, .inl rfl⟩

end TypedHeap.TypeTable
