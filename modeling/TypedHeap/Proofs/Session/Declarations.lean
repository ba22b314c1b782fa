import TypedHeap.Proofs.Session.Layouts

/-!
# Registry operations that fail

An application or a declaration that fails leaves the registry as it was. There is one exception: when every
number of a type is used, a declaration without parameters enters its family before it finds that there is no
number left for the instance.

* `TypeTable.Full`: no number is left.
* `TypeTable.apply_ends`, `declare_ends`, `define_ends`: the table after a failure.
* `Operation.Registers`: the operations on the registry.

Main results: `Session.Reachable.registry_kept`, `Session.full_registry_changes`.
-/

namespace TypedHeap

open TypedHeap.Action (Ends runOn_bind_ok runOn_look runOn_get)

/-! ## Tables after a failure -/

namespace TypeTable

variable {tt : TypeTable} {t : TypeRef} {f : Family} {ps : Params} {ts : List TypeRef} {d : Declaration}

/-- Every number of a type is used. -/
def Full (tt : TypeTable) : Prop := tt.types.size + 1 = 0x100000000

theorem Sound.full_of_nextRef {e : Error} (hs : tt.Sound) (h : tt.nextRef = .error e) : tt.Full := by
  have hbounded := hs.bounded
  unfold nextRef at h
  split at h
  · cases h
  · rename_i hnone
    by_contra hroom
    rw [TypeRef.ofIndex?, dif_pos ⟨Nat.succ_pos _, by unfold Full at hroom; omega⟩] at hnone
    cases hnone

theorem Full.nextRef (h : tt.Full) : tt.nextRef = .error (.invalidArgument "type registry is full") := by
  rw [TypeTable.nextRef, TypeRef.ofIndex?, dif_neg]
  unfold Full at h
  omega

theorem obtain_ends : Ends (obtain f ps) tt (fun _ _ => True) (· = tt) := by
  unfold obtain
  refine Ends.bind_ok (runOn_get tt) ?_
  split
  · exact .of_ok (Action.runOn_pure _ _) trivial
  · exact Ends.look_bind rfl fun t _ => .of_ok rfl trivial

theorem union_ends : Ends (union ts) tt (fun _ _ => True) (· = tt) := by
  unfold union
  refine Ends.look_bind rfl fun flat _ => Ends.ite (fun _ => .of_ok (Action.runOn_pure _ _) trivial) fun _ => ?_
  refine Ends.look_bind rfl fun ms _ => ?_
  split
  · exact .of_ok (Action.runOn_pure _ _) trivial
  · refine Ends.bind_ok (runOn_get tt) ?_
    split
    · exact obtain_ends
    · exact Ends.throw _ rfl

theorem apply_ends (name : Symbol) (ps : Params) : Ends (apply name ps) tt (fun _ _ => True) (· = tt) := by
  unfold apply
  refine Ends.bind_ok (runOn_get tt) ?_
  split
  · exact .of_ok (Action.runOn_pure _ _) trivial
  · refine Ends.bind_ok (runOn_get tt) ?_
    split
    · exact Ends.throw _ rfl
    · refine Ends.ite (fun _ => Ends.lift_bind rfl fun members _ => union_ends) fun _ => ?_
      exact Ends.look_bind rfl fun _ _ => obtain_ends

/-- A declaration leaves a table alone, or enters the family where there is no number left for its instance. -/
def LeftBehind (d : Declaration) (tt tt' : TypeTable) : Prop :=
  tt' = tt ∨ (tt.Full ∧ tt.family? d.name = none ∧ d.params = [] ∧ tt' = tt.addFamily d.family)

/-- A declaration that succeeds gives its family an instance, unless it takes parameters. -/
theorem declare_ends (hs : tt.Sound) (d : Declaration) :
    Ends (declare d) tt (fun _ tt' => d.params = [] → ∃ t, tt'.instance? d.name [] = some t) (LeftBehind d tt) := by
  unfold declare
  refine Ends.look_bind (.inl rfl) fun _ _ => Ends.bind_ok (runOn_get tt) ?_
  refine Ends.guard (fun _ => .inl rfl) fun hfree => Ends.bind_ok (Action.runOn_modify _ tt) ?_
  refine Ends.ite (fun hparams => ?_) fun hparams => ?_
  · rcases hnext : tt.nextRef with e | t
    · have hlook : (Action.look TypeTable.nextRef).runOn (tt.addFamily d.family) = (.error e, tt.addFamily d.family) := by
        rw [runOn_nextRef_addFamily, hnext]
      refine Ends.of_error (Action.runOn_bind_error hlook) (.inr ⟨hs.full_of_nextRef hnext, ?_, ?_, rfl⟩)
      · simpa using hfree
      · exact List.isEmpty_iff.1 hparams
    · have hlook : (Action.look TypeTable.nextRef).runOn (tt.addFamily d.family) = (.ok t, tt.addFamily d.family) := by
        rw [runOn_nextRef_addFamily, hnext]
      refine Ends.bind_ok hlook ?_
      refine .of_ok rfl fun _ => ⟨t, ?_⟩
      exact (instance?_addInstance _ _).trans (if_pos ⟨rfl, rfl⟩)
  · exact .of_ok (Action.runOn_pure _ _) fun h => absurd (List.isEmpty_iff.2 h) hparams

/-- What is declared is found afterwards, so that finding it cannot fail even where declaring it did. -/
theorem declareOrFind_ends (hs : tt.Sound) (d : Declaration) :
    Ends (declareOrFind d) tt (fun _ tt' => (d.params = [] → ∃ t, tt'.instance? d.name [] = some t) ∨ LeftBehind d tt tt')
      (· = tt) := by
  unfold declareOrFind
  refine Ends.bind_ok (runOn_get tt) ?_
  split
  · exact Ends.ite (fun _ => .of_ok (Action.runOn_pure _ _) (.inr (.inl rfl))) fun _ => Ends.throw _ rfl
  · rename_i hfree
    refine Ends.tryCatch ((declare_ends hs d).mono (fun _ _ => .inl) fun _ => id) fun e tt' hleft => ?_
    refine Ends.bind_ok (runOn_get tt') ?_
    rcases hleft with rfl | ⟨hfull, -, hparams, rfl⟩
    · rw [hfree]
      exact Ends.throw _ rfl
    · rw [show (tt.addFamily d.family).family? d.name = some d.family from
        (family?_addFamily _).trans (if_pos rfl)]
      refine Ends.ite (fun _ => ?_) fun hne => absurd (Family.matches_iff.2 rfl) hne
      exact .of_ok (Action.runOn_pure _ _) (.inr (.inr ⟨hfull, hfree, hparams, rfl⟩))

theorem define_ends (hs : tt.Sound) (d : Declaration) :
    Ends (define d) tt (fun _ _ => True) (LeftBehind d tt) := by
  unfold define
  refine Ends.guard (fun _ => .inl rfl) fun hparams => ?_
  have hparams : d.params = [] := by simpa using hparams
  refine Ends.bind ((declareOrFind_ends hs d).mono (fun _ _ => id) fun _ => .inl) fun _ tt' hdone => ?_
  rcases hdone with hfound | hleft
  · obtain ⟨t, ht⟩ := hfound hparams
    have hrun : (apply d.name []).runOn tt' = (.ok t, tt') := by
      rw [apply, runOn_bind_ok (runOn_get tt'), ht]
      rfl
    exact .of_ok hrun trivial
  · exact (apply_ends _ _).mono (fun _ _ => id) fun _ heq => by rw [heq]; exact hleft

/-! ## A table without numbers -/

theorem runOn_tupleType_new (hs : tt.Sound) (hts : ∀ t ∈ ts, tt.contains t = true)
    (hnew : tt.instance? "Tuple" (Params.ofTypes ts) = none) (hnext : tt.nextRef = .ok t) :
    (tupleType ts).runOn tt = (.ok t, tt.addInstance t Builtin.tupleFamily (Params.ofTypes ts)) := by
  have hfamily : tt.family? "Tuple" = some Builtin.tupleFamily := hs.builtin.family (by decide)
  have hparams : tt.checkParams Builtin.tupleFamily (Params.ofTypes ts) = .ok () := by
    have hregistered : tt.checkRegistered (Params.ofTypes ts) = .ok () := by
      rw [checkRegistered, Params.types_ofTypes]
      exact forM_eq_ok.2 fun t ht => by
        obtain ⟨d, hd⟩ := contains_iff.1 (hts t ht)
        rw [hd]
        rfl
    have htypes : checkTupleParams (Params.ofTypes ts) = .ok () := by
      rw [checkTupleParams, if_pos]
      simp [Params.ofTypes, TypeParam.type?]
    show (tt.checkRegistered _ >>= fun _ => checkTupleParams _ : Except Error Unit) = _
    rw [hregistered]
    exact htypes
  unfold tupleType apply
  rw [runOn_bind_ok (runOn_get tt), hnew]
  dsimp only
  rw [runOn_bind_ok (runOn_get tt), hfamily]
  show (Action.look (fun tt => tt.checkParams Builtin.tupleFamily _) >>= fun _ => obtain Builtin.tupleFamily _ :
    Action TypeTable TypeRef).runOn tt = _
  rw [runOn_bind_ok (by rw [runOn_look, hparams])]
  exact runOn_obtain_new hnew hnext

/-- A family of structs without fields. -/
def bare (name : Symbol) : Declaration := { name, kind := .struct }

theorem validate_bare (hs : tt.Sound) (name : Symbol) : tt.validate (bare name) = .ok () := by
  obtain ⟨top, htop, hkind⟩ := hs.descriptor_any
  show (tt.descriptor Builtin.any >>= _ : Except Error Unit) = _
  rw [htop]
  show (if _ then _ else _ : Except Error Unit) = _
  rw [if_neg]
  · rfl
  · rw [Family.isAbstract, show top.family.kind = .abstract from hkind]
    decide

/-- The family of a declaration is entered although the declaration fails. -/
theorem runOn_declare_full (hvalid : tt.validate d = .ok ()) (hfree : tt.family? d.name = none)
    (hparams : d.params = []) (hfull : tt.Full) :
    (declare d).runOn tt = (.error (.invalidArgument "type registry is full"), tt.addFamily d.family) := by
  rw [runOn_declare_free hvalid hfree hparams]
  exact Action.runOn_bind_error (by rw [runOn_nextRef_addFamily, hfull.nextRef])

end TypeTable

/-! ## Along a run -/

/-- The operations that register families and instances. -/
def Operation.Registers {α : Type} : Operation α → Prop
  | .declare _ | .declareOrFind _ | .define _ | .apply _ _ | .union _ | .tupleType _ | .arrayType _ _ => True
  | _ => False

/-- The declaration that an operation insists on. -/
def Operation.declaration? {α : Type} : Operation α → Option Declaration
  | .declare d | .define d => some d
  | _ => none

namespace Heap

/-- A heap with another type table. -/
def withTypes (h : Heap) (tt : TypeTable) : Heap := { h with registry := { h.registry with table := tt } }

theorem runOn_onTypes_error {α : Type} {x : Action TypeTable α} {h h' : Heap} {e : Error} {Q : α → TypeTable → Prop}
    {E : TypeTable → Prop} (hx : Ends x h.types Q E) (hrun : (onTypes x).runOn h = (.error e, h')) :
    ∃ tt, E tt ∧ h' = h.withTypes tt := by
  rw [runOn_onTypes] at hrun
  obtain ⟨herror, rfl⟩ := Prod.mk.inj hrun
  exact ⟨_, hx.failure e _ (Prod.ext herror rfl), rfl⟩

end Heap

open Heap

namespace Session

variable {α : Type} {s : Session} {h : Heap} {e : Error} {n : Nat}

/-- In every registry that operations lead to, an operation that fails leaves everything as it was. The exception
is a declaration without parameters of a new family in a registry whose numbers are all used: it leaves the family
behind, and nothing else. -/
theorem Reachable.registry_kept (hs : Reachable s) (o : Operation α) (ho : o.Registers)
    (hrun : o.perform.runOn s.heap = (.error e, h)) :
    h = s.heap ∨ s.heap.types.Full ∧ ∃ d, o.declaration? = some d ∧ d.params = [] ∧
      s.heap.types.family? d.name = none ∧ h = s.heap.withTypes (s.heap.types.addFamily d.family) := by
  have htypes := hs.sound.heap.registry.types
  have hsame {x : Action TypeTable α} {Q : α → TypeTable → Prop} (hx : Ends x s.heap.types Q (· = s.heap.types))
      (hrun : (onTypes x).runOn s.heap = (.error e, h)) : h = s.heap := by
    obtain ⟨tt, rfl, rfl⟩ := runOn_onTypes_error hx hrun
    rfl
  have hleft {x : Action TypeTable α} {Q : α → TypeTable → Prop} {d : Declaration}
      (hx : Ends x s.heap.types Q (TypeTable.LeftBehind d s.heap.types))
      (hrun : (onTypes x).runOn s.heap = (.error e, h)) :
      h = s.heap ∨ s.heap.types.Full ∧ d.params = [] ∧ s.heap.types.family? d.name = none ∧
        h = s.heap.withTypes (s.heap.types.addFamily d.family) := by
    obtain ⟨tt, rfl | ⟨hfull, hfree, hparams, rfl⟩, rfl⟩ := runOn_onTypes_error hx hrun
    · exact .inl rfl
    · exact .inr ⟨hfull, hparams, hfree, rfl⟩
  cases o with
  | declare d =>
    exact (hleft (TypeTable.declare_ends htypes d) hrun).imp_right fun ⟨hfull, hrest⟩ => ⟨hfull, d, rfl, hrest⟩
  | declareOrFind d => exact .inl (hsame (TypeTable.declareOrFind_ends htypes d) hrun)
  | define d =>
    exact (hleft (TypeTable.define_ends htypes d) hrun).imp_right fun ⟨hfull, hrest⟩ => ⟨hfull, d, rfl, hrest⟩
  | apply name ps => exact .inl (hsame (TypeTable.apply_ends name ps) hrun)
  | union members => exact .inl (hsame TypeTable.union_ends hrun)
  | tupleType fields => exact .inl (hsame (TypeTable.apply_ends _ _) hrun)
  | arrayType elem ndims => exact .inl (hsame (TypeTable.apply_ends _ _) hrun)
  | _ => exact ho.elim

/-- A declaration of a name that is taken. -/
theorem registry_kept_taken :
    Reachable paired ∧ (Operation.declare (TypeTable.bare "Int8")).Registers ∧
      ∃ e h, (Operation.declare (TypeTable.bare "Int8")).perform.runOn paired.heap = (.error e, h) ∧
        h = paired.heap := by
  have htaken : ((Operation.declare (TypeTable.bare "Int8")).perform.runOn paired.heap).1 =
      .error (.invalidDefinition "type Int8 is already declared") := by decide +kernel
  have hroom : paired.heap.types.types.size = 21 := by decide +kernel
  refine ⟨reachable_paired, trivial, _, _, Prod.ext htaken rfl, ?_⟩
  refine (reachable_paired.registry_kept (.declare (TypeTable.bare "Int8")) trivial (Prod.ext htaken rfl)).resolve_right fun ⟨hfull, _⟩ => ?_
  rw [TypeTable.Full, hroom] at hfull
  cases hfull

/-! ## A registry that is full -/

theorem index_tier (hn : 21 + n < 0x100000000) : (tier n).index = 21 + n := by
  rw [tier, TypeRef.ofIndex?, dif_pos ⟨by omega, hn⟩]
  rfl

/-- A tower has as many types as it is high, on top of the builtin ones, and no families of its own. -/
theorem types_tower (hn : 21 + n < 0x100000000) :
    (tower n).heap.types.types.size = 21 + n ∧ (tower n).heap.types.families = TypeTable.builtin.families := by
  induction n with
  | zero => exact ⟨by decide +kernel, by decide +kernel⟩
  | succ n ih =>
    obtain ⟨hsize, hfamilies⟩ := ih (by omega)
    have htypes : (tower n).heap.types.Sound := (reachable_tower n).sound.heap.registry.types
    have htier := index_tier (n := n) (by omega)
    have hcontains : ∀ t ∈ [tier n], (tower n).heap.types.contains t = true := fun t ht => by
      rw [List.mem_singleton.1 ht, TypeTable.contains, decide_eq_true_eq, htier, hsize]
    -- The last type is a part of no other one.
    have hnew : (tower n).heap.types.instance? "Tuple" (Params.ofTypes [tier n]) = none := by
      by_contra hsome
      obtain ⟨t, ht⟩ := Option.ne_none_iff_exists'.1 hsome
      obtain ⟨d, hd, -, hparams⟩ := htypes.instance_eq ht
      have hmember : tier n ∈ d.memberTypes := by
        rw [Descriptor.memberTypes, hparams, Params.types_ofTypes]
        exact List.mem_singleton_self _
      have hlt := (reachable_tower n).ordered.earlier hd (.inl hmember)
      have hle : (tower n).heap.types.contains t = true := TypeTable.contains_iff.2 ⟨d, hd⟩
      rw [TypeTable.contains, decide_eq_true_eq, hsize] at hle
      omega
    have hnext : (tower n).heap.types.nextRef = .ok ⟨21 + (n + 1), by omega, hn⟩ := by
      rw [TypeTable.nextRef, hsize, TypeRef.ofIndex?, dif_pos ⟨by omega, by omega⟩]
      rfl
    have htower : (tower (n + 1)).heap.types = ((TypeTable.tupleType [tier n]).runOn (tower n).heap.types).2 := by
      rw [tower, next_heap]
      rfl
    rw [htower, TypeTable.runOn_tupleType_new htypes hcontains hnew hnext]
    refine ⟨?_, hfamilies⟩
    show ((tower n).heap.types.types.push _).size = _
    rw [Array.size_push, hsize]
    omega

/-- A declaration that fails in a full registry changes the registry. -/
theorem full_registry_changes :
    ∃ s, Reachable s ∧ s.heap.types.Full ∧ ∃ d e h, (Operation.declare d).perform.runOn s.heap = (.error e, h) ∧
      s.heap.types.family? d.name = none ∧ h.types.family? d.name = some d.family := by
  obtain ⟨n, hn⟩ : ∃ n, 21 + n = 0xffffffff := ⟨0xffffffff - 21, rfl⟩
  have hs := reachable_tower n
  obtain ⟨hsize, hfamilies⟩ := types_tower (n := n) (by omega)
  have hfull : (tower n).heap.types.Full := by
    rw [TypeTable.Full, hsize, hn]
  have hfree : (tower n).heap.types.family? "Late" = none := by
    rw [TypeTable.family?, hfamilies]
    decide +kernel
  have hrun : (Operation.declare (TypeTable.bare "Late")).perform.runOn (tower n).heap =
      (.error (.invalidArgument "type registry is full"),
        (tower n).heap.withTypes ((tower n).heap.types.addFamily (TypeTable.bare "Late").family)) := by
    have hvalid : (tower n).heap.types.validate (TypeTable.bare "Late") = .ok () :=
      TypeTable.validate_bare hs.sound.heap.registry.types "Late"
    show (onTypes _).runOn _ = _
    rw [runOn_onTypes, TypeTable.runOn_declare_full hvalid hfree rfl hfull]
    rfl
  refine ⟨tower n, hs, hfull, TypeTable.bare "Late", _, _, hrun, hfree, ?_⟩
  exact (TypeTable.family?_addFamily _).trans (if_pos rfl)

end Session

end TypedHeap
