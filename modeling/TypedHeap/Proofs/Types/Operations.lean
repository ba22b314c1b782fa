import TypedHeap.Proofs.Types.Union

/-!
# What operations on a type table do

Applying and declaring only take the steps of `TypeTable.Step`, whether they succeed or fail, and
what they answer is registered.

* `apply_meets`, `arrayType_meets`: applying families.
* `declare_meets`, `define_meets`: declaring them.
-/

namespace TypedHeap

open TypedHeap.Action (Meets)

namespace TypeTable

variable {tt tt' : TypeTable} {s t : TypeRef} {d : Descriptor} {f : Family} {ps : Params}
  {name : Symbol}

/-! ## Application -/

theorem checkRegistered_of_checkParams (h : tt.checkParams f ps = .ok ()) :
    tt.checkRegistered ps = .ok () := by
  unfold checkParams at h
  obtain ⟨-, h⟩ := guard_eq_ok.1 h
  obtain ⟨_, h, -⟩ := bind_eq_ok.1 h
  exact h

theorem accepts_of_checkParams (h : tt.checkParams f ps = .ok ()) (hkind : f.kind ≠ .union) :
    tt.Accepts f ps := by
  refine ⟨fun _ => h, fun t ht => ?_, fun hunion => absurd hunion hkind⟩
  have hall := forM_eq_ok.1 (checkRegistered_of_checkParams h) t ht
  obtain ⟨d, hd, -⟩ := bind_eq_ok.1 hall
  exact ⟨d, hd⟩

/-- The answer stands for the application, unless it is a union, which is put in normal form. -/
theorem apply_meets (hs : tt.Sound) (name : Symbol) (ps : Params) :
    Meets Path (apply name ps) tt fun t tt' =>
      ∃ f, tt.family? name = some f ∧ (f.kind ≠ .union → tt'.Applied f ps t) := by
  unfold apply
  refine Meets.get_bind ?_
  cases hi : tt.instance? name ps with
  | some t =>
    obtain ⟨d, hd, hname, hps⟩ := hs.instance_eq hi
    have hf : tt.family? name = some d.family := hname ▸ hs.family_eq hd
    refine Meets.pure ⟨d.family, hf, fun _ => ⟨⟨d, hd, rfl, hps⟩, ?_⟩⟩
    rw [(hs.family hf).1, hi]
  | none =>
    refine Meets.get_bind ?_
    cases hf : tt.family? name with
    | none => exact Meets.throw _
    | some f =>
      refine Meets.ite (fun hkind => Meets.lift_bind fun members _ => ?_) fun hkind => ?_
      · exact (union_meets hs members).mono fun _ _ _ _ => ⟨f, rfl, fun hne => absurd hkind hne⟩
      · refine Meets.look_bind fun _ hparams => ?_
        have hname := (hs.family hf).1
        refine (obtain_meets hs (by rw [hname]; exact hf) (accepts_of_checkParams hparams hkind)).mono ?_
        exact fun t tt' _ ht => ⟨f, rfl, fun _ => ht⟩

/-- The application of a family that is known, and is not the one of unions. -/
theorem apply_known_meets (hs : tt.Sound) (hf : tt.family? name = some f) (hkind : f.kind ≠ .union)
    (ps : Params) : Meets Path (apply name ps) tt fun t tt' => tt'.Applied f ps t := by
  refine (apply_meets hs name ps).mono fun t tt' _ ⟨g, hg, ht⟩ => ?_
  cases hf.symm.trans hg
  exact ht hkind

theorem tupleType_meets (hs : tt.Sound) (fields : List TypeRef) :
    Meets Path (tupleType fields) tt fun t tt' => tt'.Applied Builtin.tupleFamily (Params.ofTypes fields) t :=
  apply_known_meets hs (hs.builtin.family (by decide)) (by decide) _

theorem arrayType_meets (hs : tt.Sound) (elem : TypeRef) (ndims : Nat) :
    Meets Path (arrayType elem ndims) tt fun t tt' =>
      tt'.Applied Builtin.arrayFamily [.type elem, .int (Int64.ofNat ndims)] t :=
  apply_known_meets hs (hs.builtin.family (by decide)) (by decide) _

/-! ## Declaration -/

/-- The fields of a declaration without parameters are given types. -/
theorem type_of_validateFields {d : Declaration} {seen : List Symbol}
    {fields : List (Symbol × FieldSpec)} (hparams : d.params = [])
    (h : tt.validateFields d seen fields = .ok ()) : ∀ p ∈ fields, ∃ t, p.2 = .type t := by
  induction fields generalizing seen with
  | nil => exact nofun
  | cons p fields ih =>
    obtain ⟨name, spec⟩ := p
    rw [validateFields] at h
    obtain ⟨-, h⟩ := guard_eq_ok.1 h
    rw [List.forall_mem_cons]
    cases spec with
    | type t =>
      obtain ⟨_, -, h⟩ := bind_eq_ok.1 h
      exact ⟨⟨t, rfl⟩, ih h⟩
    | param i =>
      obtain ⟨hi, -⟩ := guard_eq_ok.1 h
      rw [hparams] at hi
      exact absurd (Nat.zero_le i) hi

theorem validateFields_of_validate {d : Declaration} (h : tt.validate d = .ok ()) :
    tt.validateFields d [] d.fields = .ok () := by
  unfold validate at h
  split at h
  · cases h
  · obtain ⟨_, -, h⟩ := bind_eq_ok.1 h
    obtain ⟨_, h, -⟩ := bind_eq_ok.1 h
    exact h

/-- A family that is declared without parameters, with fields of given types, can be applied to none. -/
theorem accepts_none {d : Declaration} (hparams : d.params = []) (hgiven : ∀ p ∈ d.family.fields, ∃ t, p.2 = .type t) :
    tt.Accepts d.family [] := by
  refine ⟨fun _ => ?_, nofun, fun hunion => absurd hunion d.kind.typeKind_ne_union⟩
  have hfields : checkFieldParams d.family [] = .ok () := by
    refine forM_eq_ok.2 fun p hp => ?_
    obtain ⟨t, ht⟩ := hgiven p hp
    obtain ⟨name, spec⟩ := p
    cases ht
    rfl
  have hlength : (!d.family.variadic && List.length ([] : Params) != d.family.params.length) = false := by
    simp [Declaration.family, hparams]
  unfold checkParams
  rw [hlength]
  cases hkind : d.kind with
  | struct =>
    have : d.family.kind = .struct := by simp [Declaration.family, hkind, DeclarationKind.typeKind]
    rw [this]
    exact hfields
  | abstract =>
    have : d.family.kind = .abstract := by simp [Declaration.family, hkind, DeclarationKind.typeKind]
    rw [this]
    rfl
  | primitive size align =>
    have : d.family.kind = .primitive size align := by
      simp [Declaration.family, hkind, DeclarationKind.typeKind]
    rw [this]
    rfl

/-- A declared family without parameters can be applied to none. -/
theorem accepts_declared {d : Declaration} (hparams : d.params = [])
    (h : tt.validate d = .ok ()) : tt.Accepts d.family [] :=
  accepts_none hparams (d.family_fields ▸ type_of_validateFields hparams (validateFields_of_validate h))

/-- A new family takes no number. -/
theorem runOn_nextRef_addFamily (tt : TypeTable) (f : Family) :
    (Action.look nextRef).runOn (tt.addFamily f) = (tt.nextRef, tt.addFamily f) :=
  Action.runOn_look _ _

/-- A new family is entered first. If it has no parameters, it remains to add its instance. -/
theorem runOn_declare_free {d : Declaration} (hvalid : tt.validate d = .ok ()) (hfree : tt.family? d.name = none)
    (hparams : d.params = []) : (declare d).runOn tt =
      (do
        let t ← Action.look nextRef
        modify (·.addInstance t d.family [])
        return d.family : Action TypeTable Family).runOn (tt.addFamily d.family) := by
  unfold declare
  rw [Action.runOn_bind_ok (by rw [Action.runOn_look, hvalid]), Action.runOn_bind_ok (Action.runOn_get tt), hfree]
  show ((modify _ : Action TypeTable PUnit) >>= _).runOn tt = _
  rw [Action.runOn_bind_ok (Action.runOn_modify _ tt), hparams]
  rfl

theorem declare_meets (hs : tt.Sound) (d : Declaration) :
    Meets Path (declare d) tt fun f tt' => f = d.family ∧ tt'.family? d.name = some d.family := by
  have hfamily : (tt.addFamily d.family).family? d.name = some d.family :=
    (family?_addFamily d.name).trans (if_pos rfl)
  unfold declare
  refine Meets.look_bind fun _ hvalid => Meets.get_bind (Meets.guard fun hfree => ?_)
  have hfree : tt.family? d.name = none := by simpa using hfree
  refine Meets.change_bind (.single (.family d hvalid hfree)) ?_
  refine Meets.ite (fun hparams => ?_) fun _ => Meets.pure ⟨rfl, hfamily⟩
  refine Meets.look_bind fun t ht => ?_
  refine Meets.change_bind (.single (.applied hfamily ht ?_ ?_)) (Meets.pure ⟨rfl, hfamily⟩)
  · have hnone : tt.instance? d.name [] = none := hs.instance?_eq_none hfree
    exact hnone
  · have := accepts_declared (List.isEmpty_iff.1 hparams) hvalid
    exact ⟨this.checked, this.registered, fun hunion => absurd hunion d.kind.typeKind_ne_union⟩

/-- A family that matches a declaration is the declared one. -/
theorem declareOrFind_meets (hs : tt.Sound) (d : Declaration) :
    Meets Path (declareOrFind d) tt fun f tt' => f = d.family ∧ tt'.family? d.name = some d.family := by
  have found {tt : TypeTable} {f : Family} {e : Error} (hf : tt.family? d.name = some f) :
      Meets Path (if f.matches d then return f else throw e : Action TypeTable Family) tt
        fun f tt' => f = d.family ∧ tt'.family? d.name = some d.family := by
    refine Meets.ite (fun hmatches => Meets.pure ⟨Family.matches_iff.1 hmatches, ?_⟩) fun _ => Meets.throw e
    rw [hf, Family.matches_iff.1 hmatches]
  unfold declareOrFind
  refine Meets.get_bind ?_
  split
  · rename_i f hf
    exact found hf
  · refine Meets.tryCatch (declare_meets hs d) fun e tt' _ _ => Meets.get_bind ?_
    split
    · rename_i f hf
      exact found hf
    · exact Meets.throw _

theorem define_meets (hs : tt.Sound) (d : Declaration) :
    Meets Path (define d) tt fun t tt' => tt'.Applied d.family [] t := by
  unfold define
  refine Meets.guard fun _ => Meets.bind (declareOrFind_meets hs d) fun _ tt' hpath ⟨_, hfamily⟩ => ?_
  exact apply_known_meets (hpath.sound hs) hfamily d.kind.typeKind_ne_union _

end TypeTable

end TypedHeap
