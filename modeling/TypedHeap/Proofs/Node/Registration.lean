import TypedHeap.Proofs.Node.Schema
import TypedHeap.Proofs.Types.Room

/-!
# Registering node types

The node types are registered one after the other, each found if it was declared before. So registering them succeeds
if no name of them stands for something else and there is room for what is missing, and then it has nothing left to
do for all time.

* `NodeTypes.applications`: the applications that are made.
* `NodeTypes.Undisputed`: no name of a node type stands for something else.

Main results: `NodeTypes.Registered.runOn_register`, `NodeTypes.register_iff`, `NodeTypes.register_later`.
-/

namespace TypedHeap

open TypedHeap.Action (Ends Meets Yields runOn_bind_ok)
open TypeTable

variable {tt tt' : TypeTable} {a v : TypeRef} {k : NodeKind} {ks : List NodeKind}

/-! ## Declarations of nodes -/

/-- Fields with registered types and names that have not been seen pass the check. -/
theorem TypeTable.validateFields_types {d : Declaration} {seen : List Symbol} {fields : List (Symbol × TypeRef)}
    (hnames : (fields.map Prod.fst).Nodup) (hseen : ∀ p ∈ fields, p.1 ∉ seen)
    (htypes : ∀ p ∈ fields, tt.contains p.2 = true) :
    tt.validateFields d seen (fields.map fun (name, t) => (name, .type t)) = .ok () := by
  induction fields generalizing seen with
  | nil => rfl
  | cons p fields ih =>
    obtain ⟨x, t⟩ := p
    rw [List.map_cons, List.nodup_cons] at hnames
    rw [List.forall_mem_cons] at hseen htypes
    obtain ⟨c, hc⟩ := contains_iff.1 htypes.1
    rw [List.map_cons, validateFields]
    refine guard_eq_ok.2 ⟨hseen.1, bind_eq_ok.2 ⟨c, hc, ih hnames.2 ?_ htypes.2⟩⟩
    intro q hq hmem
    rcases List.mem_cons.1 hmem with heq | hmem
    · exact hnames.1 (List.mem_map.2 ⟨q, hq, heq⟩)
    · exact hseen.2 q hq hmem

/-- Nodes have fields with different names. -/
theorem NodeKind.nodup_fields (a v : TypeRef) (k : NodeKind) : ((k.fields a v).map Prod.fst).Nodup := by
  cases k <;> simp [NodeKind.fields]

/-- What types nodes have fields of is builtin, or a vector. -/
theorem NodeKind.contains_of_mem (hs : tt.Sound) (ha : tt.contains a = true) (hv : tt.contains v = true) :
    ∀ p ∈ k.fields a v, tt.contains p.2 = true := by
  have hbuiltin {t : TypeRef} (ht : TypeTable.builtin.contains t = true) : tt.contains t = true :=
    hs.builtin.contains ht
  have hany : tt.contains Builtin.any = true := hbuiltin (by decide)
  have hdataType : tt.contains Builtin.dataType = true := hbuiltin (by decide)
  have hint64 : tt.contains Builtin.int64 = true := hbuiltin (by decide)
  have hsymbol : tt.contains Builtin.symbol = true := hbuiltin (by decide)
  have hmodule : tt.contains Builtin.moduleType = true := hbuiltin (by decide)
  cases k <;> simp [NodeKind.fields, *]

/-- The declaration of a node obeys the rules. -/
theorem NodeKind.validate_declaration (hs : tt.Sound) (ha : tt.contains a = true) (hv : tt.contains v = true)
    (k : NodeKind) : tt.validate (k.declaration a v) = .ok () := by
  obtain ⟨top, htop, hkind⟩ := hs.descriptor_any
  have hfields : tt.validateFields (k.declaration a v) [] (k.declaration a v).fields = .ok () :=
    validateFields_types (k.nodup_fields a v) (fun _ _ => List.not_mem_nil) (contains_of_mem hs ha hv)
  have hkinds : validateKind (k.declaration a v) = .ok () := by
    cases k <;> rfl
  unfold validate
  refine bind_eq_ok.2 ⟨⟨⟩, hkinds, bind_eq_ok.2 ⟨⟨⟩, hfields, bind_eq_ok.2 ⟨top, htop, ?_⟩⟩⟩
  have habstract : top.family.isAbstract = true := by
    rw [Family.isAbstract, show top.family.kind = .abstract from hkind]
    rfl
  rw [habstract]
  rfl

/-! ## Registering them -/

namespace NodeTypes

/-- The applications that registering the node types makes: two types of vectors, and the nodes. -/
def applications : List (Symbol × Params) :=
  ("Array", [.type Builtin.any, .int (Int64.ofNat 1)]) ::
    ("Array", [.type Builtin.int32, .int (Int64.ofNat 1)]) :: NodeKind.all.map fun k => (k.typeName, [])

theorem nodup_applications : applications.Nodup := by decide

/-- No name of a node type stands for anything but the node, its vectors being given. -/
def Undisputed (tt : TypeTable) (a v : TypeRef) : Prop :=
  ∀ (k : NodeKind) (f : Family), tt.family? k.typeName = some f → f = (k.declaration a v).family

/-- Different kinds are registered one after the other. -/
theorem mapM_define_yields (hs : tt.Sound) (ha : tt.contains a = true) (hv : tt.contains v = true) (hks : ks.Nodup)
    (hsame : ∀ k ∈ ks, ∀ f, tt.family? k.typeName = some f → f = (k.declaration a v).family)
    (hroom : tt.HasRoom (ks.map fun k => (k.typeName, []))) :
    Yields (ks.mapM fun k => TypeTable.define (k.declaration a v)) tt fun _ _ => True := by
  induction ks generalizing tt with
  | nil => exact Yields.pure trivial
  | cons k ks ih =>
    obtain ⟨hk, hks⟩ := List.nodup_cons.1 hks
    rw [List.forall_mem_cons] at hsame
    rw [List.map_cons] at hroom
    have hadds := define_adds hs (d := k.declaration a v) rfl (k.validate_declaration hs ha hv) hsame.1 hroom.of_cons
    rw [List.mapM_cons]
    refine Yields.bind (hadds.ends (Ends.of_meets (define_meets hs _))) fun t tt' hdone => ?_
    obtain ⟨hadds, hpath, -⟩ := hdone
    have hext := hpath.extends
    have hname {j : NodeKind} (hj : j ∈ ks) : j.typeName ≠ k.typeName := by
      intro heq
      exact hk (NodeKind.typeName_injective heq ▸ hj)
    have hfresh : (k.typeName, ([] : Params)) ∉ ks.map fun k => (k.typeName, ([] : Params)) := by
      intro hmem
      obtain ⟨j, hj, heq⟩ := List.mem_map.1 hmem
      exact hname hj (congrArg Prod.fst heq)
    have hrest := ih (hpath.sound hs) (hext.contains ha) (hext.contains hv) hks ?_ ((hadds.hasRoom_iff hfresh).2 hroom)
    · exact Yields.bind hrest fun _ _ _ => Yields.pure trivial
    · intro j hj f hf
      rw [hadds.families _ (hname hj)] at hf
      exact hsame.2 j hj f hf

/-- Registering the node types is registering the vectors and then the kinds in order. -/
theorem register_kinds :
    (do
      let ts ← register
      return NodeKind.all.map ts.ofKind : Action TypeTable (List TypeRef)) =
      arrayType Builtin.any 1 >>= fun a => arrayType Builtin.int32 1 >>= fun v =>
        NodeKind.all.mapM fun k => TypeTable.define (k.declaration a v) := by
  simp [register, NodeKind.all, ofKind]

/-- What is left to do once there are the two vectors. -/
structure Prepares (tt : TypeTable) (a v : TypeRef) (tt' : TypeTable) : Prop where
  path : Path tt tt'
  anyVector : tt'.Applied Builtin.arrayFamily [.type Builtin.any, .int (Int64.ofNat 1)] a
  int32Vector : tt'.Applied Builtin.arrayFamily [.type Builtin.int32, .int (Int64.ofNat 1)] v
  families : ∀ k : NodeKind, tt'.family? k.typeName = tt.family? k.typeName
  room : tt'.HasRoom (NodeKind.all.map fun k => (k.typeName, []))

/-- With room for what is missing, the vectors are made, or found. -/
theorem exists_vectors (hs : tt.Sound) (hroom : tt.HasRoom applications) :
    ∃ a v tt₁ tt₂, (arrayType Builtin.any 1).runOn tt = (.ok a, tt₁) ∧
      (arrayType Builtin.int32 1).runOn tt₁ = (.ok v, tt₂) ∧ Prepares tt a v tt₂ := by
  have hrank : 0 ≤ (Int64.ofNat 1).toInt ∧ (Int64.ofNat 1).toInt ≤ maxRank := by decide
  obtain ⟨hfresh, hnodup⟩ := List.nodup_cons.1 nodup_applications
  have hany : tt.contains Builtin.any = true := hs.builtin.contains (by decide)
  have hyields := (arrayType_adds hs hany hrank hroom.of_cons).ends (Ends.of_meets (arrayType_meets hs _ _))
  obtain ⟨a, tt₁, hrun, hadds, hpath, ha⟩ := hyields
  have hs₁ := hpath.sound hs
  have hroom₁ := (hadds.hasRoom_iff hfresh).2 hroom
  have hint : tt₁.contains Builtin.int32 = true := hs₁.builtin.contains (by decide)
  have hyields₁ := (arrayType_adds hs₁ hint hrank hroom₁.of_cons).ends (Ends.of_meets (arrayType_meets hs₁ _ _))
  obtain ⟨v, tt₂, hrun₁, hadds₁, hpath₁, hv⟩ := hyields₁
  have harray : ∀ k : NodeKind, k.typeName ≠ "Array" := by
    intro k
    cases k <;> decide
  refine ⟨a, v, tt₁, tt₂, hrun, hrun₁, hpath.trans hpath₁, ha.extends hpath₁.extends, hv, fun k => ?_, ?_⟩
  · rw [hadds₁.families _ (harray k), hadds.families _ (harray k)]
  · exact (hadds₁.hasRoom_iff (List.nodup_cons.1 hnodup).1).2 hroom₁

section Runs

variable {ts : NodeTypes} {tt₁ tt₂ : TypeTable} {e : Error}

/-- Once the vectors are there, the kinds are registered. -/
theorem runOn_register_kinds (hany : (arrayType Builtin.any 1).runOn tt = (.ok a, tt₁))
    (hint32 : (arrayType Builtin.int32 1).runOn tt₁ = (.ok v, tt₂)) :
    (register >>= fun ts => pure (NodeKind.all.map ts.ofKind)).runOn tt =
      (NodeKind.all.mapM fun k => TypeTable.define (k.declaration a v)).runOn tt₂ := by
  rw [register_kinds, runOn_bind_ok hany, runOn_bind_ok hint32]

/-- If no name is taken by something else, they all are. -/
theorem register_yields (hs : tt.Sound) (hany : (arrayType Builtin.any 1).runOn tt = (.ok a, tt₁))
    (hint32 : (arrayType Builtin.int32 1).runOn tt₁ = (.ok v, tt₂)) (hp : Prepares tt a v tt₂)
    (hu : Undisputed tt a v) : ∃ ts tt', register.runOn tt = (.ok ts, tt') := by
  have hs₂ := hp.path.sound hs
  have ha : tt₂.contains a = true := by
    obtain ⟨d, hd, -⟩ := hp.anyVector.stands
    exact contains_iff.2 ⟨d, hd⟩
  have hv : tt₂.contains v = true := by
    obtain ⟨d, hd, -⟩ := hp.int32Vector.stands
    exact contains_iff.2 ⟨d, hd⟩
  have hkinds := mapM_define_yields hs₂ ha hv (by decide)
    (fun k _ f hf => hu k f ((hp.families k).symm.trans hf)) hp.room
  obtain ⟨rs, tt', hrun, -⟩ := hkinds
  have hregister := (runOn_register_kinds hany hint32).trans hrun
  rcases hts : register.runOn tt with ⟨e | ts, tt''⟩
  · rw [Action.runOn_bind_error hts] at hregister
    cases hregister
  · exact ⟨ts, tt'', rfl⟩

/-- What registering leaves grew out of what making the vectors left, whether it succeeds or fails. -/
theorem path_register (hs₂ : tt₂.Sound) (hany : (arrayType Builtin.any 1).runOn tt = (.ok a, tt₁))
    (hint32 : (arrayType Builtin.int32 1).runOn tt₁ = (.ok v, tt₂)) : Path tt₂ (register.runOn tt).2 := by
  have hkinds : Meets Path (NodeKind.all.mapM fun k => TypeTable.define (k.declaration a v)) tt₂
      fun rs _ => List.Forall₂ (fun _ _ => True) NodeKind.all rs :=
    Meets.mapM NodeKind.all (I := Sound) hs₂ (fun _ _ hs hpath => Path.sound hpath hs) (fun _ _ _ _ _ _ _ => trivial)
      fun k _ tt hs => (define_meets hs _).mono fun _ _ _ _ => trivial
  have hkept := hkinds.kept
  have hregister := congrArg Prod.snd (runOn_register_kinds hany hint32)
  rw [← hregister] at hkept
  rcases hts : register.runOn tt with ⟨e | ts, tt'⟩
  · rw [Action.runOn_bind_error hts] at hkept
    exact hkept
  · rw [runOn_bind_ok hts] at hkept
    exact hkept

/-- The names of node types that are registered stand for them. -/
theorem Registered.family? (h : ts.Registered tt) (hs : tt.Sound) (k : NodeKind) :
    tt.family? k.typeName = some (k.declaration ts.anyVector ts.int32Vector).family := by
  obtain ⟨d, hd, hfamily, -⟩ := h.descriptor k
  have hfound := hs.family_eq hd
  rw [Descriptor.name, hfamily] at hfound
  exact hfound

/-- What was registered is found again, and nothing changes. -/
theorem Registered.runOn_register (h : ts.Registered tt) (hs : tt.Sound) : register.runOn tt = (.ok ts, tt) := by
  have hany : (arrayType Builtin.any 1).runOn tt = (.ok ts.anyVector, tt) := h.anyVector.runOn_apply
  have hint32 : (arrayType Builtin.int32 1).runOn tt = (.ok ts.int32Vector, tt) := h.int32Vector.runOn_apply
  have hdefine (k : NodeKind) :
      (TypeTable.define (k.declaration ts.anyVector ts.int32Vector)).runOn tt = (.ok (ts.ofKind k), tt) :=
    runOn_define_applied (h.family? hs k) rfl (h.node k)
  unfold register
  rw [runOn_bind_ok hany, runOn_bind_ok hint32]
  dsimp only
  rw [runOn_bind_ok (hdefine .goto), runOn_bind_ok (hdefine .line), runOn_bind_ok (hdefine .quote),
    runOn_bind_ok (hdefine .slot), runOn_bind_ok (hdefine .typedSlot), runOn_bind_ok (hdefine .global),
    runOn_bind_ok (hdefine .phi), runOn_bind_ok (hdefine .phic), runOn_bind_ok (hdefine .upsilon),
    runOn_bind_ok (hdefine .pi), runOn_bind_ok (hdefine .newvar), runOn_bind_ok (hdefine .ssa),
    runOn_bind_ok (hdefine .expr)]
  rfl

/-- Once the node types are registered, nothing is missing. -/
theorem Registered.hasRoom (h : ts.Registered tt) (hs : tt.Sound) : tt.HasRoom applications := by
  refine hs.hasRoom fun k hk => ?_
  rcases List.mem_cons.1 hk with rfl | hk
  · exact ⟨_, h.anyVector.found⟩
  rcases List.mem_cons.1 hk with rfl | hk
  · exact ⟨_, h.int32Vector.found⟩
  · obtain ⟨k, -, rfl⟩ := List.mem_map.1 hk
    exact ⟨_, (h.node k).found⟩

/-- If the node types are registered later on, their names stood for nothing else. -/
theorem Prepares.undisputed (hp : Prepares tt a v tt₂) (hpath : Path tt₂ tt') (hs' : tt'.Sound)
    (h : ts.Registered tt') : Undisputed tt a v := by
  have hext := hpath.extends
  obtain rfl : a = ts.anyVector :=
    Option.some.inj ((hp.anyVector.extends hext).found.symm.trans h.anyVector.found)
  obtain rfl : v = ts.int32Vector :=
    Option.some.inj ((hp.int32Vector.extends hext).found.symm.trans h.int32Vector.found)
  intro k f hf
  have hlater := hext.family (hp.path.extends.family hf)
  exact Option.some.inj (hlater.symm.trans (h.family? hs' k))

/-- With room for what is missing, the node types are registered exactly if their names stand for nothing else. -/
theorem register_iff (hs : tt.Sound) (hroom : tt.HasRoom applications) :
    ∃ a v tt₁ tt₂, (arrayType Builtin.any 1).runOn tt = (.ok a, tt₁) ∧
      (arrayType Builtin.int32 1).runOn tt₁ = (.ok v, tt₂) ∧
      ((∃ ts, (register.runOn tt).1 = .ok ts) ↔ Undisputed tt a v) := by
  obtain ⟨a, v, tt₁, tt₂, hany, hint32, hp⟩ := exists_vectors hs hroom
  refine ⟨a, v, tt₁, tt₂, hany, hint32, ?_, ?_⟩
  · rintro ⟨ts, hts⟩
    have hregistered := (register_meets hs).answer ts hts
    have hpath := path_register (hp.path.sound hs) hany hint32
    exact hp.undisputed hpath (Path.sound (register_meets hs).kept hs) hregistered
  · intro hu
    obtain ⟨ts, tt', hrun⟩ := register_yields hs hany hint32 hp hu
    exact ⟨ts, congrArg Prod.fst hrun⟩

/-- Where registering the node types fails, it fails ever after: the vectors that were made before the failure are those
that are found later on, and neither room nor a name becomes free again. -/
theorem register_later (hs : tt.Sound) (hrun : register.runOn tt = (.error e, tt₁)) (hpath : Path tt₁ tt') :
    ∃ e', (register.runOn tt').1 = .error e' := by
  have hkept := (register_meets hs).kept
  rw [hrun] at hkept
  have hs' := hpath.sound (Path.sound hkept hs)
  rcases hlater : register.runOn tt' with ⟨e' | ts, tt''⟩
  · exact ⟨e', rfl⟩
  exfalso
  have hkept' := (register_meets hs').kept
  have hts := (register_meets hs').answer ts (by rw [hlater])
  rw [hlater] at hkept' hts
  have hs'' := Path.sound hkept' hs'
  have hroom := Path.hasRoom ((hkept.trans hpath).trans hkept') nodup_applications (hts.hasRoom hs'')
  obtain ⟨a, v, tt₂, tt₃, hany, hint32, hp⟩ := exists_vectors hs hroom
  have hvectors := path_register (hp.path.sound hs) hany hint32
  rw [hrun] at hvectors
  have hu := hp.undisputed ((hvectors.trans hpath).trans hkept') hs'' hts
  obtain ⟨ts', tt₄, hok⟩ := register_yields hs hany hint32 hp hu
  rw [hrun] at hok
  cases hok

end Runs

end NodeTypes

end TypedHeap
