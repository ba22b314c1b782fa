import TypedHeap.Inspect.Report
import TypedHeap.Node.Schema
import TypedHeap.Proofs.Layout.Geometry

/-!
# Failures of questions about types

Whatever is asked of a registry, and whatever is declared in it, an error is about types: one that is
not registered, a declaration or an application that is refused, a field or a parameter that does not exist.

* `Error.IsAboutTypes`: those errors.
* `TypeTable.apply_fails`, `define_fails`, …: declaring and applying.
* `Layouts.of_fails`, `Registry.layout_fails`, …: layouts.
-/

namespace TypedHeap

open TypedHeap.Action (Fails)

/-- An error about types and how they are laid out. Types may be too large to have a layout. -/
def Error.IsAboutTypes : Error → Prop
  | .invalidTag _ .unregistered => True
  | .indexOutOfRange .field _ _ | .indexOutOfRange .parameter _ _ => True
  | .undefined _ | .invalidDefinition _ | .invalidArgument _ => True
  | _ => False

/-- An error about types, or a layout that takes up more than a word can say. -/
def Error.IsAboutLayouts (e : Error) : Prop := IsAboutTypes e ∨ e = .overflow

open Error (IsAboutTypes IsAboutLayouts)

theorem Error.IsAboutTypes.ne_overflow {e : Error} (he : IsAboutTypes e) : e ≠ .overflow := by
  rintro rfl
  exact he

theorem Params.get_raises (ps : Params) (i : Nat) : Raises (ps.get i) IsAboutTypes := by
  unfold Params.get
  split
  · exact .ok
  · exact .error trivial

namespace TypeTable

variable {tt : TypeTable}

theorem descriptor_raises (tt : TypeTable) (t : TypeRef) :
    Raises (tt.descriptor t) fun e => e = .invalidTag t.addr .unregistered := by
  unfold descriptor
  split
  · exact .ok
  · exact .error rfl

theorem descriptor_fails (tt : TypeTable) (t : TypeRef) : Raises (tt.descriptor t) IsAboutTypes := by
  refine (tt.descriptor_raises t).mono fun e he => ?_
  rw [he]
  trivial

/-- A type cannot be shown if a part of it is not registered. -/
theorem render_raises (tt : TypeTable) (t : TypeRef) :
    Raises (tt.render t) fun e => ∃ addr, e = .invalidTag addr .unregistered := by
  unfold render
  induction t.index generalizing t with
  | zero => exact .error ⟨_, rfl⟩
  | succ depth ih =>
    unfold renderWithin
    refine Raises.bind ((tt.descriptor_raises t).mono fun _ he => ⟨_, he⟩) fun d _ => ?_
    refine Raises.ite (fun _ => .pure) fun _ => Raises.bind (Raises.mapM fun p _ => ?_) fun _ _ => .pure
    cases p with
    | type s => exact ih s
    | int n => exact .ok
    | symbol s => exact .ok
    | bool b => exact .ok

theorem render_fails (tt : TypeTable) (t : TypeRef) : Raises (tt.render t) IsAboutTypes := by
  refine (tt.render_raises t).mono fun e he => ?_
  obtain ⟨_, rfl⟩ := he
  trivial

/-! ## Subtypes -/

theorem chainMeets_fails (tt : TypeTable) (declared : TypeRef) (steps : Nat) (t : Option TypeRef) :
    Raises (tt.chainMeets declared steps t) IsAboutTypes := by
  induction steps generalizing t with
  | zero => cases t <;> exact .ok
  | succ steps ih =>
    cases t with
    | none => exact .ok
    | some s =>
      unfold chainMeets
      refine Raises.ite (fun _ => .pure) fun _ => Raises.bind (tt.descriptor_fails s) fun d _ => ih _

theorem allM_fails {α : Type} {f : α → Except Error Bool} {l : List α} (hf : ∀ a, Raises (f a) IsAboutTypes) :
    Raises (l.allM f) IsAboutTypes := by
  induction l with
  | nil => exact .pure
  | cons a l ih =>
    unfold List.allM
    refine Raises.bind (hf a) fun b _ => ?_
    split
    · exact ih
    · exact .pure

theorem anyM_fails {α : Type} {f : α → Except Error Bool} {l : List α} (hf : ∀ a, Raises (f a) IsAboutTypes) :
    Raises (l.anyM f) IsAboutTypes := by
  induction l with
  | nil => exact .pure
  | cons a l ih =>
    unfold List.anyM
    refine Raises.bind (hf a) fun b _ => ?_
    split
    · exact .pure
    · exact ih

theorem isa_fails (tt : TypeTable) (t declared : TypeRef) : Raises (tt.isa t declared) IsAboutTypes := by
  unfold isa
  induction t.index + declared.index generalizing t declared with
  | zero => exact .ok
  | succ depth ih =>
    unfold isaWithin
    refine Raises.ite (fun _ => .pure) fun _ => Raises.bind (tt.descriptor_fails t) fun sub _ => ?_
    refine Raises.ite (fun _ => allM_fails fun m => ih m declared) fun _ => ?_
    refine Raises.bind (tt.descriptor_fails declared) fun sup _ => ?_
    refine Raises.ite (fun _ => anyM_fails fun m => ih t m) fun _ => ?_
    exact tt.chainMeets_fails declared _ _

/-! ## Applying -/

theorem nextRef_fails (tt : TypeTable) : Raises tt.nextRef IsAboutTypes := by
  unfold nextRef
  split
  · exact .ok
  · exact .error trivial

theorem checkParams_fails (tt : TypeTable) (f : Family) (ps : Params) :
    Raises (tt.checkParams f ps) IsAboutTypes := by
  unfold checkParams
  refine Raises.guard (fun _ => trivial) fun _ => Raises.bind (Raises.forM fun t _ => ?_) fun _ _ => ?_
  · exact Raises.bind (tt.descriptor_fails t) fun _ _ => .pure
  split
  · unfold checkArrayParams
    split
    · exact Raises.ite (fun _ => .ok) fun _ => .error trivial
    · exact .error trivial
  · exact Raises.ite (fun _ => .ok) fun _ => .error trivial
  · refine Raises.forM fun p _ => ?_
    obtain ⟨name, spec⟩ := p
    cases spec with
    | type t => exact .ok
    | param i => exact Raises.bind (ps.get_raises i) fun p _ => Raises.ite (fun _ => .pure) fun _ => .throw trivial
  · exact .pure

theorem obtain_fails (f : Family) (ps : Params) : Fails (obtain f ps) tt IsAboutTypes := by
  unfold obtain
  refine Fails.get_bind ?_
  split
  · exact .pure
  · exact Fails.look_bind tt.nextRef_fails fun t _ => Fails.change_bind .pure

theorem atoms_fails (tt : TypeTable) (ts : List TypeRef) : Raises (tt.atoms ts) IsAboutTypes := by
  induction ts with
  | nil => exact .ok
  | cons t ts ih => exact Raises.bind (tt.descriptor_fails t) fun d _ => Raises.bind ih fun _ _ => .pure

theorem union_fails (members : List TypeRef) : Fails (union members) tt IsAboutTypes := by
  unfold union
  refine Fails.look_bind (tt.atoms_fails members) fun flat _ => Fails.ite (fun _ => .pure) fun _ => ?_
  refine Fails.look_bind (Raises.mapM fun t _ => Raises.bind (tt.render_fails t) fun _ _ => .pure) fun keyed _ => ?_
  split
  · exact .pure
  · refine Fails.get_bind ?_
    split
    · exact obtain_fails _ _
    · exact .throw trivial

theorem unionMembers_fails (ps : Params) : Raises (unionMembers ps) IsAboutTypes := by
  refine Raises.mapM fun p _ => ?_
  split
  · exact .ok
  · exact .error trivial

theorem apply_fails (name : Symbol) (ps : Params) : Fails (apply name ps) tt IsAboutTypes := by
  unfold apply
  refine Fails.get_bind ?_
  split
  · exact .pure
  · refine Fails.get_bind ?_
    split
    · exact .throw trivial
    · refine Fails.ite (fun _ => Fails.lift_bind (unionMembers_fails ps) fun _ _ => union_fails _) fun _ => ?_
      exact Fails.look_bind (tt.checkParams_fails _ ps) fun _ _ => obtain_fails _ _

/-! ## Declaring -/

theorem validateFields_fails (tt : TypeTable) (d : Declaration) (seen : List Symbol)
    (fields : List (Symbol × FieldSpec)) : Raises (tt.validateFields d seen fields) IsAboutTypes := by
  induction fields generalizing seen with
  | nil => exact .ok
  | cons p fields ih =>
    obtain ⟨name, spec⟩ := p
    unfold validateFields
    refine Raises.guard (fun _ => trivial) fun _ => ?_
    cases spec with
    | type t => exact Raises.bind (tt.descriptor_fails t) fun _ _ => ih _
    | param i => exact Raises.guard (fun _ => trivial) fun _ => ih _

theorem validateKind_fails (d : Declaration) : Raises (validateKind d) IsAboutTypes := by
  unfold validateKind
  -- The last rule stands behind each case of the first one.
  have hlast : Raises (if (d.isMutable && d.kind != .struct) = true then
      throw (refusal d "only structs can be mutable") else pure ⟨⟩ : Except Error PUnit) IsAboutTypes :=
    Raises.ite (fun _ => .throw trivial) fun _ => .pure
  dsimp only
  split
  · exact hlast
  · exact Raises.guard (fun _ => trivial) fun _ => hlast
  · exact Raises.guard (fun _ => trivial) fun _ => hlast

theorem validate_fails (tt : TypeTable) (d : Declaration) : Raises (tt.validate d) IsAboutTypes := by
  unfold validate
  split
  · exact .throw_bind trivial
  · refine Raises.bind (validateKind_fails d) fun _ _ => Raises.bind (tt.validateFields_fails d _ _) fun _ _ => ?_
    refine Raises.bind (tt.descriptor_fails _) fun sup _ => Raises.ite (fun _ => ?_) fun _ => .pure
    exact Raises.bind (tt.render_fails _) fun _ _ => .throw trivial

theorem declare_fails (d : Declaration) : Fails (declare d) tt IsAboutTypes := by
  unfold declare
  refine Fails.look_bind (tt.validate_fails d) fun _ _ => Fails.get_bind (Fails.guard (fun _ => trivial) fun _ => ?_)
  refine Fails.change_bind (Fails.ite (fun _ => ?_) fun _ => .pure)
  exact Fails.look_bind (nextRef_fails _) fun t _ => Fails.change_bind .pure

theorem declareOrFind_fails (d : Declaration) : Fails (declareOrFind d) tt IsAboutTypes := by
  unfold declareOrFind
  refine Fails.get_bind ?_
  split
  · exact Fails.ite (fun _ => .pure) fun _ => .throw trivial
  · refine Fails.tryCatch (declare_fails d) fun e tt' he _ => Fails.get_bind ?_
    split
    · exact Fails.ite (fun _ => .pure) fun _ => .throw he
    · exact .throw he

theorem define_fails (d : Declaration) : Fails (define d) tt IsAboutTypes := by
  unfold define
  refine Fails.guard (fun _ => trivial) fun _ => Fails.bind_ran (declareOrFind_fails d) fun _ _ _ => ?_
  exact apply_fails _ _

end TypeTable

open TypeTable in
theorem NodeTypes.register_fails {tt : TypeTable} : Fails register tt IsAboutTypes := by
  unfold register
  refine Fails.bind_ran (apply_fails _ _) fun anyVector tt₁ _ => ?_
  refine Fails.bind_ran (apply_fails _ _) fun int32Vector tt₂ _ => ?_
  -- Thirteen definitions, one after the other.
  have next {α : Type} {tt' : TypeTable} (k : NodeKind) {g : TypeRef → Action TypeTable α}
      (h : ∀ t tt'', Fails (g t) tt'' IsAboutTypes) :
      Fails (TypeTable.define (k.declaration anyVector int32Vector) >>= g) tt' IsAboutTypes :=
    Fails.bind_ran (define_fails _) fun t tt'' _ => h t tt''
  refine next .goto fun _ _ => next .line fun _ _ => next .quote fun _ _ => next .slot fun _ _ => ?_
  refine next .typedSlot fun _ _ => next .global fun _ _ => next .phi fun _ _ => next .phic fun _ _ => ?_
  refine next .upsilon fun _ _ => next .pi fun _ _ => next .newvar fun _ _ => next .ssa fun _ _ => ?_
  exact next .expr fun _ _ => .pure

/-! ## Layouts -/

namespace Layouts

variable {tt : TypeTable} {m : LayoutMemo}

theorem structFields_fails (d : Descriptor) : Raises (structFields d) IsAboutTypes := by
  refine Raises.mapM fun p _ => Raises.bind ?_ fun _ _ => .pure
  obtain ⟨name, spec⟩ := p
  cases spec with
  | type t => exact .ok
  | param i =>
    refine Raises.bind (d.params.get_raises i) fun p _ => ?_
    split
    · exact .pure
    · exact .throw trivial

theorem tupleFieldsFrom_fails (k : Nat) (ps : Params) : Raises (tupleFieldsFrom k ps) IsAboutTypes := by
  induction ps generalizing k with
  | nil => exact .ok
  | cons p ps ih =>
    unfold tupleFieldsFrom
    split
    · exact Raises.bind (ih (k + 1)) fun _ _ => .pure
    · exact .throw trivial

theorem product_fails {layoutOf : TypeRef → Action LayoutMemo Layout}
    (hlayout : ∀ t m, Fails (layoutOf t) m IsAboutLayouts) (isMutable : Bool) (fields : List (Symbol × TypeRef)) :
    Fails (product tt layoutOf isMutable fields) m IsAboutLayouts := by
  unfold product
  refine Fails.bind_ran (Fails.foldlM_of_forall fun draft p _ m => ?_) fun draft _ _ =>
    .lift ((draft.finish_raises isMutable).mono fun _ => .inr)
  unfold extend slot
  refine Fails.bind_ran ?_ fun s _ _ => .lift ((draft.add_raises s).mono fun _ => .inr)
  refine Fails.lift_bind ((tt.descriptor_fails p.2).mono fun _ => .inl) fun d _ => Fails.ite (fun _ => ?_) fun _ => .pure
  exact Fails.bind_ran (hlayout p.2 m) fun l _ _ => Fails.ite (fun _ => .pure) fun _ => .pure

theorem compute_fails {layoutOf : TypeRef → Action LayoutMemo Layout}
    (hlayout : ∀ t m, Fails (layoutOf t) m IsAboutLayouts) (d : Descriptor) :
    Fails (compute tt layoutOf d) m IsAboutLayouts := by
  unfold compute
  split
  · exact .pure
  · exact Fails.lift_bind ((tt.render_fails _).mono fun _ => .inl) fun _ _ => .throw (.inl trivial)
  · exact Fails.lift_bind ((tt.render_fails _).mono fun _ => .inl) fun _ _ => .throw (.inl trivial)
  · exact .pure
  · exact .pure
  · exact .pure
  · refine .lift (Raises.bind ((d.params.get_raises 1).mono fun _ => .inl) fun p _ => ?_)
    split
    · exact .pure
    · exact .throw (.inl trivial)
  · exact Fails.lift_bind ((structFields_fails d).mono fun _ => .inl) fun _ _ => product_fails hlayout _ _
  · exact Fails.lift_bind ((tupleFieldsFrom_fails 0 _).mono fun _ => .inl) fun _ _ => product_fails hlayout _ _

theorem memoized_fails {fresh : Descriptor → Action LayoutMemo Layout} (t : TypeRef)
    (hfresh : ∀ d m, Fails (fresh d) m IsAboutLayouts) : Fails (memoized tt t fresh) m IsAboutLayouts := by
  unfold memoized
  refine Fails.lift_bind ((tt.descriptor_fails t).mono fun _ => .inl) fun d _ => Fails.get_bind ?_
  split
  · exact .pure
  · refine Fails.bind_ran (hfresh d m) fun l m' _ => ?_
    unfold LayoutMemo.publish
    refine Fails.get_bind ?_
    split
    · exact .pure
    · exact .change_bind .pure

theorem within_fails (depth : Nat) (t : TypeRef) (m : LayoutMemo) : Fails (within tt depth t) m IsAboutLayouts := by
  induction depth generalizing t m with
  | zero => exact memoized_fails t fun _ _ => .throw (.inl trivial)
  | succ depth ih => exact memoized_fails t fun d _ => compute_fails ih d

theorem of_fails (t : TypeRef) : Fails (of tt t) m IsAboutLayouts := within_fails _ t m

theorem isInline_fails (t : TypeRef) : Fails (isInline tt t) m IsAboutLayouts := by
  unfold isInline
  refine Fails.lift_bind ((tt.descriptor_fails t).mono fun _ => .inl) fun d _ => Fails.ite (fun _ => ?_) fun _ => .pure
  exact Fails.bind_ran (of_fails t) fun _ _ _ => .pure

end Layouts

namespace Registry

variable {r : Registry}

theorem layout_fails (t : TypeRef) : Fails (layout t) r IsAboutLayouts :=
  Fails.get_bind (Fails.focus (Layouts.of_fails t))

theorem isInline_fails (t : TypeRef) : Fails (isInline t) r IsAboutLayouts :=
  Fails.get_bind (Fails.focus (Layouts.isInline_fails t))

theorem sizeOf_fails (t : TypeRef) : Fails (sizeOf t) r IsAboutLayouts :=
  Fails.bind_ran (layout_fails t) fun _ _ _ => .pure

theorem alignmentOf_fails (t : TypeRef) : Fails (alignmentOf t) r IsAboutLayouts :=
  Fails.bind_ran (layout_fails t) fun _ _ _ => .pure

theorem fieldCount_fails (t : TypeRef) : Fails (fieldCount t) r IsAboutLayouts :=
  Fails.bind_ran (layout_fails t) fun _ _ _ => .pure

theorem field_fails (t : TypeRef) (i : Nat) : Fails (field t i) r IsAboutLayouts := by
  refine Fails.bind_ran (layout_fails t) fun l _ _ => .lift ?_
  unfold Layout.field
  split
  · exact .ok
  · exact .error (.inl trivial)

theorem fieldIndex_fails (t : TypeRef) (name : Symbol) : Fails (fieldIndex t name) r IsAboutLayouts := by
  unfold fieldIndex
  refine Fails.bind_ran (layout_fails t) fun l _ _ => ?_
  split
  · exact .pure
  · exact Fails.get_bind (.throw (.inl trivial))

end Registry

/-! ## Reports -/

namespace Report

variable {r : Registry}

theorem traits_fails (t : TypeRef) : Fails (traits t) r IsAboutLayouts := by
  unfold traits
  refine Fails.get_bind (Fails.lift_bind ((r.table.descriptor_fails t).mono fun _ => .inl) fun d _ => ?_)
  refine Fails.ite (fun _ => Fails.pure_bind .pure) fun _ => ?_
  exact Fails.bind_ran (Registry.isInline_fails t) fun _ _ _ => .pure

theorem extent_fails (t : TypeRef) : Fails (extent t) r IsAboutLayouts := by
  unfold extent
  refine Fails.bind_ran .attempt fun a r' hrun => ?_
  have ha : (Registry.layout t).runOn r = (a, r') := by
    rw [Action.runOn_attempt] at hrun
    obtain ⟨ha, rfl⟩ := Prod.mk.inj hrun
    exact Prod.ext (Except.ok.inj ha) rfl
  split
  · exact .pure
  · exact .pure
  · exact .throw (Registry.layout_fails t _ (by rw [ha]))

theorem builtinRow_fails (t : TypeRef) : Fails (builtinRow t) r IsAboutLayouts := by
  unfold builtinRow
  refine Fails.get_bind (Fails.lift_bind ((r.table.render_fails t).mono fun _ => .inl) fun name _ => ?_)
  refine Fails.bind_ran (extent_fails t) fun e r' _ => ?_
  exact Fails.bind_ran (traits_fails t) fun _ _ _ => .pure

theorem builtins_fails : Fails builtins r IsAboutLayouts :=
  Fails.bind_ran (Fails.mapM_of_forall fun t _ _ => builtinRow_fails t) fun _ _ _ => .pure

theorem layoutOf_fails (name : String) : Fails (layoutOf name) r IsAboutLayouts := by
  unfold layoutOf
  refine Fails.get_bind ?_
  split
  · exact .throw (.inl trivial)
  · rename_i t _
    refine Fails.bind_ran (Registry.layout_fails t) fun l r' _ => Fails.get_bind ?_
    refine Fails.lift_bind ((r'.table.descriptor_fails t).mono fun _ => .inl) fun d _ => ?_
    refine Fails.bind_ran (Fails.mapM_of_forall fun p _ r => ?_) fun _ _ _ => ?_
    · exact Fails.get_bind (Fails.lift_bind ((r.table.render_fails _).mono fun _ => .inl) fun _ _ => .pure)
    · exact Fails.lift_bind ((r'.table.render_fails t).mono fun _ => .inl) fun _ _ => .pure

end Report

end TypedHeap
