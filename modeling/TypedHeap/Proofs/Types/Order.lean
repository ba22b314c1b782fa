import TypedHeap.Proofs.Types.Operations

/-!
# Types come after what they are made of

A declaration may only mention types that are registered, and so may the parameters that a family is
applied to. So a type has a greater number than its parameters and the declared types of its fields,
and no chain of fields leads from a type back to itself.

* `Descriptor.Mentions`: the types that an instance is made of.
* `TypeTable.Ordered`: they have smaller numbers, and the parameters are those that the fields need.

Main results: `Step.ordered`, `Path.ordered`, `ordered_builtin`.
-/

namespace TypedHeap

/-- A type is a parameter of an instance, or the declared type of one of its fields. -/
def Descriptor.Mentions (d : Descriptor) (s : TypeRef) : Prop :=
  s ∈ d.memberTypes ∨ ∃ name, (name, FieldSpec.type s) ∈ d.family.fields

theorem Descriptor.mentions_of_mem {d : Descriptor} {s : TypeRef} (h : TypeParam.type s ∈ d.params) :
    d.Mentions s := .inl (List.mem_filterMap.2 ⟨_, h, rfl⟩)

/-- Numbers of types start at one. -/
theorem TypeRef.exists_index_eq (t : TypeRef) : ∃ n, t.index = n + 1 :=
  Nat.exists_eq_add_one.2 t.pos

namespace TypeTable

variable {tt tt' : TypeTable} {s t : TypeRef} {d : Descriptor} {f : Family} {ps : Params} {name : Symbol}

/-- Instances come after the types that they are made of, and have the parameters that their fields
need. -/
structure Ordered (tt : TypeTable) : Prop where
  declared : ∀ {name x f s}, tt.family? name = some f → (x, FieldSpec.type s) ∈ f.fields →
    tt.contains s = true
  earlier : ∀ {t d s}, tt.descriptor t = .ok d → d.Mentions s → s.index < t.index
  struct : ∀ {t d}, tt.descriptor t = .ok d → d.kind = .struct →
    checkFieldParams d.family d.params = .ok ()
  tuple : ∀ {t d}, tt.descriptor t = .ok d → d.kind = .tuple → checkTupleParams d.params = .ok ()

/-- What comes before a registered type is registered. -/
theorem contains_of_lt (hd : tt.descriptor t = .ok d) (hlt : s.index < t.index) :
    tt.contains s = true := by
  have ht : tt.contains t = true := contains_iff.2 ⟨d, hd⟩
  simp only [contains, decide_eq_true_eq] at ht ⊢
  omega

/-! ## What checks say -/

theorem contains_of_validateFields {e : Declaration} {seen : List Symbol}
    {fields : List (Symbol × FieldSpec)} (h : tt.validateFields e seen fields = .ok ()) :
    ∀ p ∈ fields, ∀ s, p.2 = .type s → tt.contains s = true := by
  induction fields generalizing seen with
  | nil => exact nofun
  | cons p fields ih =>
    obtain ⟨x, spec⟩ := p
    rw [validateFields] at h
    obtain ⟨-, h⟩ := guard_eq_ok.1 h
    rw [List.forall_mem_cons]
    cases spec with
    | type t =>
      obtain ⟨d, hd, h⟩ := bind_eq_ok.1 h
      refine ⟨fun s hs => ?_, ih h⟩
      cases hs
      exact contains_iff.2 ⟨d, hd⟩
    | param i =>
      obtain ⟨-, h⟩ := guard_eq_ok.1 h
      refine ⟨fun s hs => ?_, ih h⟩
      cases hs

/-- The parameters that are checked by the kind of a family. -/
theorem checkKind_of_checkParams (h : tt.checkParams f ps = .ok ()) :
    (f.kind = .struct → checkFieldParams f ps = .ok ()) ∧
      (f.kind = .tuple → checkTupleParams ps = .ok ()) := by
  unfold checkParams at h
  obtain ⟨-, h⟩ := guard_eq_ok.1 h
  obtain ⟨_, -, h⟩ := bind_eq_ok.1 h
  constructor
  all_goals
    intro hkind
    rw [hkind] at h
    exact h

/-! ## Steps -/

theorem Step.ordered (h : tt.Step tt') (ho : tt.Ordered) : tt'.Ordered := by
  have hext := h.extends
  cases h with
  | family e valid free =>
    refine ⟨fun {name x f s} hf hs => ?_, ho.earlier, ho.struct, ho.tuple⟩
    rw [family?_addFamily] at hf
    split at hf
    · cases hf
      rw [e.family_fields] at hs
      exact contains_of_validateFields (validateFields_of_validate valid) (x, .type s) hs s rfl
    · exact ho.declared hf hs
  | @applied f ps t declared next new fits =>
    have hindex := index_of_nextRef next
    have hlt {s : TypeRef} (hs : tt.contains s = true) : s.index < t.index := by
      simp only [contains, decide_eq_true_eq] at hs
      omega
    have hchecked (hkind : f.kind ≠ .union) := checkKind_of_checkParams (fits.checked hkind)
    refine ⟨fun hf hs => hext.contains (ho.declared hf hs), ?_, ?_, ?_⟩
    · intro t' d s hd hmentions
      rcases (descriptor_addInstance next).1 hd with hd | ⟨rfl, rfl⟩
      · exact ho.earlier hd hmentions
      · rcases hmentions with hs | ⟨x, hs⟩
        · exact hlt (contains_iff.2 (fits.registered s hs))
        · exact hlt (ho.declared declared hs)
    · intro t' d hd hkind
      rcases (descriptor_addInstance next).1 hd with hd | ⟨rfl, rfl⟩
      · exact ho.struct hd hkind
      · have hkind : f.kind = .struct := hkind
        exact (hchecked (by rw [hkind]; decide)).1 hkind
    · intro t' d hd hkind
      rcases (descriptor_addInstance next).1 hd with hd | ⟨rfl, rfl⟩
      · exact ho.tuple hd hkind
      · have hkind : f.kind = .tuple := hkind
        exact (hchecked (by rw [hkind]; decide)).2 hkind

theorem Path.ordered (h : Path tt tt') (ho : tt.Ordered) : tt'.Ordered := h.preserves Step.ordered ho

/-- Of the builtin types only modules have fields: a symbol, and a field for anything. -/
theorem ordered_builtin : TypeTable.builtin.Ordered := by
  have hspecs : ∀ f ∈ builtin.families, ∀ p ∈ f.fields,
      p.2 = .type Builtin.symbol ∨ p.2 = .type Builtin.any := by decide
  have hdescriptors : ∀ d ∈ builtin.types.toList, d.params = [] ∧
      ∀ p ∈ d.family.fields, (p.2 = .type Builtin.symbol ∨ p.2 = .type Builtin.any) ∧
        d.ref = Builtin.moduleType := by decide
  have hmem {t : TypeRef} {d : Descriptor} (h : builtin.descriptor t = .ok d) :
      d ∈ builtin.types.toList :=
    Array.mem_toList_iff.2 (Array.mem_of_getElem? (descriptor_eq_ok.1 h))
  refine ⟨fun hf hs => ?_, fun {t d s} hd hmentions => ?_, fun {t d} hd hkind => ?_,
    fun {t d} hd hkind => ?_⟩
  · rcases hspecs _ (List.mem_of_find?_eq_some hf) _ hs with h | h <;> cases h <;> decide
  · obtain ⟨hparams, hfields⟩ := hdescriptors d (hmem hd)
    rcases hmentions with hs | ⟨x, hs⟩
    · rw [Descriptor.memberTypes, hparams] at hs
      cases hs
    · obtain ⟨hspec, href⟩ := hfields _ hs
      rw [← sound_builtin.ref_eq hd, href]
      rcases hspec with h | h <;> cases h <;> decide
  · obtain ⟨hparams, hfields⟩ := hdescriptors d (hmem hd)
    refine forM_eq_ok.2 fun p hp => ?_
    obtain ⟨x, spec⟩ := p
    rcases (hfields _ hp).1 with h | h <;> cases h <;> rfl
  · rw [(hdescriptors d (hmem hd)).1]
    rfl

end TypeTable

end TypedHeap
