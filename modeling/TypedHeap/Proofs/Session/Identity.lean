import TypedHeap.Proofs.Session.Layouts

/-!
# Which type is which

Types are compared by their numbers. This is good enough: along a run, a number stands for one family
applied to one list of parameters, and no other number does.

* `TypeTable.Denotes`: a type is the instance of a family name with some parameters.
* `Operation.Applies`: operations that ask for such an instance.
* `Session.Gave`: one of them was performed in the past, and answered.

Main result: `Session.Reachable.types_identified`.
-/

namespace TypedHeap

open TypedHeap.Action (Meets)

/-! ## Instances -/

namespace TypeTable

variable {tt tt' : TypeTable} {t u : TypeRef} {name name' : Symbol} {f : Family} {ps ps' : Params}

/-- `t` is the instance of the family `name` with parameters `ps`. -/
def Denotes (tt : TypeTable) (t : TypeRef) (name : Symbol) (ps : Params) : Prop :=
  ∃ d, tt.descriptor t = .ok d ∧ d.name = name ∧ d.params = ps

theorem Denotes.extends (h : tt.Denotes t name ps) (hext : tt.Extends tt') : tt'.Denotes t name ps := by
  obtain ⟨d, hd, hname, hps⟩ := h
  exact ⟨d, hext.descriptor hd, hname, hps⟩

theorem Applied.denotes (h : tt.Applied f ps t) : tt.Denotes t f.name ps := by
  obtain ⟨d, hd, hf, hps⟩ := h.stands
  exact ⟨d, hd, congrArg Family.name hf, hps⟩

/-- The instance list holds what the descriptors say, no more and no less. -/
theorem Sound.instance?_iff (hs : tt.Sound) : tt.instance? name ps = some t ↔ tt.Denotes t name ps := by
  refine ⟨hs.instance_eq, ?_⟩
  rintro ⟨d, hd, rfl, rfl⟩
  exact hs.found hd

/-- A number and an application determine each other. -/
theorem Sound.denotes_iff (hs : tt.Sound) (ht : tt.Denotes t name ps) (hu : tt.Denotes u name' ps') :
    t = u ↔ name = name' ∧ ps = ps' := by
  constructor
  · rintro rfl
    obtain ⟨d, hd, rfl, rfl⟩ := ht
    obtain ⟨e, he, rfl, rfl⟩ := hu
    cases hd.symm.trans he
    exact ⟨rfl, rfl⟩
  · rintro ⟨rfl, rfl⟩
    have ht := hs.instance?_iff.2 ht
    rw [hs.instance?_iff.2 hu] at ht
    exact (Option.some.inj ht).symm

/-- Descriptors are numbered from one, in the order in which they were registered. -/
theorem Sound.index_eq {k : Nat} {d : Descriptor} (hs : tt.Sound) (hd : tt.types[k]? = some d) :
    d.ref.index = k + 1 := by
  have hk := (Array.getElem?_eq_some_iff.1 hd).1
  have hbounded := hs.bounded
  have ht : tt.descriptor ⟨k + 1, Nat.succ_pos k, by omega⟩ = .ok d := descriptor_eq_ok.2 hd
  rw [hs.ref_eq ht]

end TypeTable

/-! ## Applications -/

/-- An operation asks for the instance of a family with some parameters. -/
inductive Operation.Applies : Operation TypeRef → Symbol → Params → Prop
  | apply (name : Symbol) (ps : Params) : Applies (.apply name ps) name ps
  | tuple (fields : List TypeRef) : Applies (.tupleType fields) "Tuple" (Params.ofTypes fields)
  | array (elem : TypeRef) (ndims : Nat) :
    Applies (.arrayType elem ndims) "Array" [.type elem, .int (Int64.ofNat ndims)]
  | define (d : Declaration) : Applies (.define d) d.name []

open TypeTable in
/-- The instance of any family but `Union` is what was asked for. -/
theorem Operation.Applies.denotes {h h' : Heap} {o : Operation TypeRef} {name : Symbol} {ps : Params}
    {t : TypeRef} (ho : o.Applies name ps) (hs : h.Sound) (hunion : name ≠ "Union")
    (hrun : o.perform.runOn h = (.ok t, h')) : h'.types.Denotes t name ps := by
  have hfocus {x : Action TypeTable TypeRef}
      (hx : Meets TypeTable.Path x h.types fun t tt => tt.Denotes t name ps)
      (hrun : (Heap.onTypes x).runOn h = (.ok t, h')) : h'.types.Denotes t name ps := by
    have hanswer := (Heap.onTypes_meets hx).answer t
    rw [hrun] at hanswer
    exact hanswer rfl
  have htypes := hs.registry.types
  cases ho with
  | apply =>
    refine hfocus ((apply_meets htypes name ps).mono fun t tt' hpath ht => ?_) hrun
    obtain ⟨f, hf, ht⟩ := ht
    have hname := (htypes.family hf).1
    have hkind : f.kind ≠ .union := fun hkind => by
      rw [htypes.unions hf hkind] at hname
      exact hunion hname.symm
    rw [← hname]
    exact (ht hkind).denotes
  | tuple fields => exact hfocus ((tupleType_meets htypes fields).mono fun _ _ _ ht => ht.denotes) hrun
  | array elem ndims => exact hfocus ((arrayType_meets htypes elem ndims).mono fun _ _ _ ht => ht.denotes) hrun
  | define d => exact hfocus ((define_meets htypes d).mono fun _ _ _ ht => ht.denotes) hrun

/-! ## Along a run -/

namespace Session

variable {s u : Session}

/-- At some moment before `u` somebody asked for the instance of `name` with `ps`, and got `t`. -/
def Gave (u : Session) (name : Symbol) (ps : Params) (t : TypeRef) : Prop :=
  ∃ (s : Session) (o : Operation TypeRef), Reachable s ∧ o.Applies name ps ∧
    (o.perform.runOn s.heap).1 = .ok t ∧ Leads (s.next o) u

theorem Gave.denotes {name : Symbol} {ps : Params} {t : TypeRef} (h : u.Gave name ps t)
    (hunion : name ≠ "Union") : u.heap.types.Denotes t name ps := by
  obtain ⟨s, o, hs, ho, hanswer, hu⟩ := h
  have hnext : Reachable (s.next o) := hs.next o (by cases ho <;> exact allows_of_none rfl)
  have ht : (s.next o).heap.types.Denotes t name ps := by
    rw [next_heap]
    exact ho.denotes hs.sound.heap hunion (Prod.ext hanswer rfl)
  exact ht.extends (hu.grows hnext.sound).extends.types

/-- In every registry that operations lead to, two applications of families other than `Union`, whenever they
happened, gave the same type exactly if they applied the same family to the same parameters. Descriptors are
numbered in order, the instance list holds each of them under its name and its parameters and nothing else, and
no later operation changes one. -/
theorem Reachable.types_identified (hu : Reachable u) :
    (∀ (name : Symbol) ps t (name' : Symbol) ps' t', name ≠ "Union" → name' ≠ "Union" →
      u.Gave name ps t → u.Gave name' ps' t' → (t = t' ↔ name = name' ∧ ps = ps')) ∧
    (∀ k d, u.heap.types.types[k]? = some d → d.ref.index = k + 1) ∧
    (∀ name ps t, u.heap.types.instance? name ps = some t ↔ u.heap.types.Denotes t name ps) ∧
    ∀ v, Leads u v → ∀ t d, u.heap.types.descriptor t = .ok d → v.heap.types.descriptor t = .ok d := by
  have htypes := hu.sound.heap.registry.types
  refine ⟨fun name ps t name' ps' t' hname hname' ht ht' => ?_, fun k d => htypes.index_eq,
    fun name ps t => htypes.instance?_iff, fun v hv t d hd => ?_⟩
  · exact htypes.denotes_iff (ht.denotes hname) (ht'.denotes hname')
  · exact (hv.grows hu.sound).extends.types.descriptor hd

/-- A tuple type and an array type over the same number type, and the tuple type again. -/
def reapplied : Session :=
  start ⟨64, 4096⟩ .off
    |>.next (.apply "Tuple" [.type Builtin.int8])
    |>.next (.arrayType Builtin.int8 1)
    |>.next (.tupleType [Builtin.int8])

theorem types_identified_reapplied :
    Reachable reapplied ∧ reapplied.Gave "Tuple" [.type Builtin.int8] (tier 0) ∧
      reapplied.Gave "Array" [.type Builtin.int8, .int 1] (tier 1) ∧ tier 0 ≠ tier 1 := by
  have h₀ : Reachable (start ⟨64, 4096⟩ .off) := reachable_start _ _
  have h₁ := h₀.next (.apply "Tuple" [.type Builtin.int8]) (allows_of_none rfl)
  have h₂ := h₁.next (.arrayType Builtin.int8 1) (allows_of_none rfl)
  have h₃ : Reachable reapplied := h₂.next (.tupleType [Builtin.int8]) (allows_of_none rfl)
  have htuple : reapplied.Gave "Tuple" [.type Builtin.int8] (tier 0) :=
    ⟨_, _, h₂, .tuple _, by decide +kernel, .refl⟩
  have harray : reapplied.Gave "Array" [.type Builtin.int8, .int 1] (tier 1) :=
    ⟨_, _, h₁, .array _ _, by decide +kernel, .next .refl _ (allows_of_none rfl)⟩
  refine ⟨h₃, htuple, harray, fun heq => ?_⟩
  have hname := ((h₃.types_identified.1 _ _ _ _ _ _ (by decide) (by decide) htuple harray).1 heq).1
  exact absurd hname (by decide)

end Session

end TypedHeap
