import TypedHeap.Proofs.Failure
import TypedHeap.Proofs.Types.Operations

/-!
# Declaring a name again

The name of a family is taken for good. A declaration of that name finds the family if it has the same shape, part by
part, and is refused if it does not; the table stays as it is either way.

* `Declaration.SameShape`: two declarations that agree in everything but their names.
* `TypeTable.Given`: families without parameters have fields of given types.

Main results: `TypeTable.runOn_declareOrFind_same`, `runOn_declareOrFind_other`, `runOn_declare_taken`,
`define_yields`.
-/

namespace TypedHeap

open TypedHeap.Action (Ends Yields runOn_bind_ok runOn_bind_error runOn_get runOn_lift runOn_look)

/-! ## Shapes -/

/-- The module, the kind with its size and alignment, the mutability, the supertype, the names of the parameters,
and the names and specifications of the fields in order. -/
structure Declaration.SameShape (d e : Declaration) : Prop where
  home : e.home = d.home
  kind : e.kind = d.kind
  isMutable : e.isMutable = d.isMutable
  supertype : e.supertype = d.supertype
  params : e.params = d.params
  fieldNames : e.fields.map Prod.fst = d.fields.map Prod.fst
  fieldSpecs : e.fields.map Prod.snd = d.fields.map Prod.snd

/-- Names and specifications that are kept in lists of their own tell fields apart. -/
theorem Declaration.eq_iff_sameShape {d e : Declaration} (hname : e.name = d.name) :
    e = d ↔ d.SameShape e := by
  constructor
  · rintro rfl
    exact ⟨rfl, rfl, rfl, rfl, rfl, rfl, rfl⟩
  · rintro ⟨hhome, hkind, hmutable, hsuper, hparams, hnames, hspecs⟩
    have hfields : e.fields = d.fields := by
      exact (List.zip_of_prod hnames hspecs).trans (List.zip_of_prod rfl rfl).symm
    obtain ⟨_, _, _, _, _, _, _⟩ := d
    obtain ⟨_, _, _, _, _, _, _⟩ := e
    cases hname
    cases hhome
    cases hkind
    cases hmutable
    cases hsuper
    cases hparams
    cases hfields
    rfl

namespace TypeTable

variable {tt tt' : TypeTable} {d e : Declaration} {f : Family} {t : TypeRef}

/-! ## A name that is taken -/

/-- A declaration that was made before finds its family. -/
theorem runOn_declareOrFind_same (hf : tt.family? d.name = some d.family) :
    (declareOrFind d).runOn tt = (.ok d.family, tt) := by
  unfold declareOrFind
  rw [runOn_bind_ok (runOn_get tt), hf]
  show (if d.family.matches d then pure d.family else throw _ : Action TypeTable Family).runOn tt = _
  rw [if_pos (Family.matches_iff.2 rfl)]
  rfl

/-- A declaration of another shape is refused. -/
theorem runOn_declareOrFind_other (hf : tt.family? e.name = some f) (hne : f ≠ e.family) :
    (declareOrFind e).runOn tt =
      (.error (.invalidDefinition ("type " ++ e.name.text ++ " is already declared with a different shape")), tt) := by
  unfold declareOrFind
  rw [runOn_bind_ok (runOn_get tt), hf]
  show (if f.matches e then pure f else throw _ : Action TypeTable Family).runOn tt = _
  rw [if_neg fun h => hne (Family.matches_iff.1 h)]
  rfl

/-- Nothing is declared under a name that is taken. -/
theorem runOn_declare_taken (hf : tt.family? e.name = some f) : ∃ err, (declare e).runOn tt = (.error err, tt) := by
  unfold declare
  cases hvalid : tt.validate e with
  | error err => exact ⟨err, runOn_bind_error (by rw [runOn_look, hvalid])⟩
  | ok u =>
    rw [runOn_bind_ok (by rw [runOn_look, hvalid]), runOn_bind_ok (runOn_get tt), hf]
    exact ⟨_, rfl⟩

/-! ## Families without parameters -/

/-- The fields of families without parameters have given types. -/
def Given (tt : TypeTable) : Prop :=
  ∀ {name f}, tt.family? name = some f → f.params = [] → ∀ p ∈ f.fields, ∃ t, p.2 = .type t

theorem Step.given (h : tt.Step tt') (hg : tt.Given) : tt'.Given := by
  cases h with
  | family d valid _ =>
    intro name f hf hparams
    rw [family?_addFamily] at hf
    split at hf
    · cases hf
      rw [d.family_fields]
      exact type_of_validateFields hparams (validateFields_of_validate valid)
    · exact hg hf hparams
  | applied => exact hg

theorem Path.given (h : Path tt tt') (hg : tt.Given) : tt'.Given := h.preserves Step.given hg

theorem given_builtin : TypeTable.builtin.Given := by
  have hall : ∀ f ∈ builtin.families, ∀ p ∈ f.fields,
      p.2 = .type Builtin.symbol ∨ p.2 = .type Builtin.any := by decide
  intro name f hf _ p hp
  rcases hall f (List.mem_of_find?_eq_some hf) p hp with h | h
  · exact ⟨_, h⟩
  · exact ⟨_, h⟩

/-- As long as there is a number left, a family without parameters has its instance, or is given one now. -/
theorem define_yields (hs : tt.Sound) (hg : tt.Given) (hf : tt.family? d.name = some d.family)
    (hparams : d.params = []) (hnext : tt.nextRef = .ok t) :
    Yields (define d) tt fun t tt' => tt'.Applied d.family [] t := by
  have haccepts : tt.Accepts d.family [] := accepts_none hparams (hg hf hparams)
  have hchecked : tt.checkParams d.family [] = .ok () := haccepts.checked d.kind.typeKind_ne_union
  have happly : Yields (apply d.name []) tt fun _ _ => True := by
    unfold apply
    refine Yields.bind_ok (runOn_get tt) ?_
    cases hi : tt.instance? d.name [] with
    | some t => exact Yields.pure trivial
    | none =>
      refine Yields.bind_ok (runOn_get tt) ?_
      rw [hf]
      show Yields (if d.family.kind = .union then _ else Action.look (·.checkParams d.family []) >>= fun _ =>
        obtain d.family []) tt _
      have hkind : d.family.kind ≠ .union := d.kind.typeKind_ne_union
      rw [if_neg hkind]
      exact Yields.look_bind hchecked (Yields.of_ok (runOn_obtain_new hi hnext) trivial)
  have hdefine : Yields (define d) tt fun _ _ => True := by
    unfold define
    rw [hparams]
    exact Yields.bind_ok (runOn_declareOrFind_same hf) happly
  exact (hdefine.ends (Ends.of_meets (define_meets hs d))).mono fun _ _ h => h.2.2

/-- From then on the instance is found. -/
theorem runOn_define_applied (hf : tt.family? d.name = some d.family) (hparams : d.params = [])
    (h : tt.Applied d.family [] t) : (define d).runOn tt = (.ok t, tt) := by
  unfold define
  rw [hparams]
  show (declareOrFind d >>= fun _ => apply d.name []).runOn tt = _
  rw [runOn_bind_ok (runOn_declareOrFind_same hf)]
  exact h.runOn_apply

end TypeTable

end TypedHeap
