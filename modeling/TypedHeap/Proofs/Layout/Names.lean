import TypedHeap.Proofs.Layout.Placement

/-!
# Names of fields

A declaration that names two fields alike is refused, and tuples number theirs. So the fields of a layout have
different names, and a name leads to the one position at which it stands.

* `TypeTable.Distinct`: the fields of a family have different names.
* `Layout.Named`: the fields of a layout have different names.

Main results: `TypeTable.Path.distinct`, `Layout.Named.fieldIndex?_eq_some_iff`, `Descriptor.Declares.nodup`.
-/

namespace TypedHeap

open Layouts

/-! ## Families -/

namespace TypeTable

variable {tt tt' : TypeTable}

/-- The fields of a family have different names. -/
def Distinct (tt : TypeTable) : Prop :=
  ∀ name f, tt.family? name = some f → (f.fields.map Prod.fst).Nodup

/-- Fields that pass the check have different names, none of which was seen before. -/
theorem nodup_of_validateFields {d : Declaration} {seen : List Symbol} {fields : List (Symbol × FieldSpec)}
    (h : tt.validateFields d seen fields = .ok ()) :
    (fields.map Prod.fst).Nodup ∧ ∀ x ∈ fields.map Prod.fst, x ∉ seen := by
  induction fields generalizing seen with
  | nil => simp
  | cons p fields ih =>
    obtain ⟨x, spec⟩ := p
    rw [validateFields] at h
    obtain ⟨hx, h⟩ := guard_eq_ok.1 h
    have hrest : tt.validateFields d (x :: seen) fields = .ok () := by
      cases spec with
      | type t =>
        obtain ⟨-, -, h⟩ := bind_eq_ok.1 h
        exact h
      | param i =>
        obtain ⟨-, h⟩ := guard_eq_ok.1 h
        exact h
    obtain ⟨hnodup, hnew⟩ := ih hrest
    constructor
    · rw [List.map_cons, List.nodup_cons]
      exact ⟨fun hmem => hnew x hmem List.mem_cons_self, hnodup⟩
    · intro y hy hseen
      rcases List.mem_cons.1 hy with rfl | hy
      · exact hx hseen
      · exact hnew y hy (List.mem_cons_of_mem x hseen)

theorem Step.distinct (h : tt.Step tt') (hd : tt.Distinct) : tt'.Distinct := by
  intro name f hfamily
  cases h with
  | family d valid free =>
    rw [family?_addFamily] at hfamily
    split at hfamily
    · cases hfamily
      rw [d.family_fields]
      exact (nodup_of_validateFields (validateFields_of_validate valid)).1
    · exact hd name f hfamily
  | applied => exact hd name f hfamily

theorem Path.distinct (h : Path tt tt') (hd : tt.Distinct) : tt'.Distinct := h.preserves Step.distinct hd

theorem distinct_builtin : TypeTable.builtin.Distinct := by
  intro name f hfamily
  have hall : ∀ f ∈ builtin.families, (f.fields.map Prod.fst).Nodup := by decide
  exact hall f (List.mem_of_find?_eq_some hfamily)

end TypeTable

/-! ## Positions -/

namespace Layout

variable {l : Layout} {name : Symbol} {i : Nat}

/-- The fields of a layout have different names. -/
def Named (l : Layout) : Prop := (l.fields.map FieldLayout.name).Nodup

/-- A name leads to the position at which it stands. -/
theorem Named.fieldIndex?_eq_some_iff (hl : l.Named) :
    l.fieldIndex? name = some i ↔ ∃ f, l.fields[i]? = some f ∧ f.name = name := by
  have hnames := List.pairwise_iff_getElem.1 hl
  simp only [List.length_map, List.getElem_map] at hnames
  simp only [fieldIndex?, List.findIdx?_eq_some_iff_getElem, beq_iff_eq, List.getElem?_eq_some_iff]
  constructor
  · rintro ⟨hi, hname, -⟩
    exact ⟨l.fields[i], ⟨hi, rfl⟩, hname⟩
  · rintro ⟨f, ⟨hi, rfl⟩, rfl⟩
    exact ⟨hi, rfl, fun j hji => hnames j i (hji.trans hi) hi hji⟩

/-- A name that no field has leads nowhere. -/
theorem fieldIndex?_eq_none_iff : l.fieldIndex? name = none ↔ ∀ f ∈ l.fields, f.name ≠ name := by
  simp [fieldIndex?]

end Layout

/-- Different numbers are written differently. -/
theorem decimal_injective {m n : Nat} (h : toString m = toString n) : m = n := by
  have hdigits : Nat.toDigits 10 m = Nat.toDigits 10 n := String.ofList_injective h
  calc
    m = Nat.ofDigitChars 10 (Nat.toDigits 10 m) 0 := (Nat.ofDigitChars_toDigits (by decide) (by decide)).symm
    _ = Nat.ofDigitChars 10 (Nat.toDigits 10 n) 0 := by rw [hdigits]
    _ = n := Nat.ofDigitChars_toDigits (by decide) (by decide)

/-- Fields that a struct declares, or that are numbered for a tuple, have different names. -/
theorem Descriptor.Declares.nodup {d : Descriptor} {fs : List FieldLayout} (h : d.Declares fs)
    (hd : (d.family.fields.map Prod.fst).Nodup) : (fs.map FieldLayout.name).Nodup := by
  unfold Declares at h
  split at h
  · have hnames : fs.map FieldLayout.name = d.family.fields.map Prod.fst := by
      generalize d.family.fields = ps at h
      induction h with
      | nil => rfl
      | cons hp _ ih => rw [List.map_cons, List.map_cons, ih, hp.1]
    rw [hnames]
    exact hd
  · refine List.pairwise_iff_getElem.2 fun i j hi hj hij hname => ?_
    rw [List.length_map] at hi hj
    rw [List.getElem_map, List.getElem_map, h.2 i hi, h.2 j hj] at hname
    have hnumber := decimal_injective (congrArg Symbol.text hname)
    omega
  · exact h.elim

end TypedHeap
