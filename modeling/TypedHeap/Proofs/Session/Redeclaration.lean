import TypedHeap.Proofs.Session.Declarations
import TypedHeap.Proofs.Types.Redeclaration

/-!
# Declaring a name again along a run

Once a declaration has found or registered its family, the same declaration is found at every later point, whatever
else was declared, and any other one under that name is refused. Neither changes anything.

Main result: `Session.Reachable.redeclaration`.
-/

namespace TypedHeap

open Heap

namespace Session

variable {s u : Session} {d : Declaration} {f : Family} {h : Heap}

theorem Reachable.given (hs : Reachable s) : s.heap.types.Given := by
  intro name f
  exact TypeTable.Path.given hs.grown TypeTable.given_builtin

/-- What a declaration found or registered is what its name stands for from then on. -/
theorem Reachable.family_declared (hs : Reachable s)
    (hrun : (Operation.declareOrFind d).perform.runOn s.heap = (.ok f, h))
    (hu : Leads (s.next (.declareOrFind d)) u) : f = d.family ∧ u.heap.types.family? d.name = some d.family := by
  have hnext : Reachable (s.next (.declareOrFind d)) := hs.next _ (allows_of_none rfl)
  have hmeets := TypeTable.declareOrFind_meets hs.sound.heap.registry.types d
  obtain ⟨hf, hfamily⟩ := hmeets.answer f (congrArg Prod.fst hrun)
  refine ⟨hf, (hu.grows hnext.sound).extends.types.family ?_⟩
  rw [next_heap]
  exact hfamily

/-- In every heap that operations lead to after a declaration was found or registered, declarations of the same name
find its family if they have the same shape, part by part, and are refused otherwise; to register the name anew is
always refused. Nothing changes on the way. If there are no parameters, the instance is the same from the first time
on that it is asked for, which takes a number if there is one left. -/
theorem Reachable.redeclaration (hs : Reachable s)
    (hrun : (Operation.declareOrFind d).perform.runOn s.heap = (.ok f, h))
    (hu : Leads (s.next (.declareOrFind d)) u) :
    (∀ e : Declaration, e.name = d.name →
      (d.SameShape e → (Operation.declareOrFind e).perform.runOn u.heap = (.ok f, u.heap)) ∧
      (¬d.SameShape e → (Operation.declareOrFind e).perform.runOn u.heap =
        (.error (.invalidDefinition ("type " ++ d.name.text ++ " is already declared with a different shape")),
          u.heap)) ∧
      ∃ err, (Operation.declare e).perform.runOn u.heap = (.error err, u.heap)) ∧
    (d.params = [] → ¬u.heap.types.Full →
      ∃ t, ((Operation.define d).perform.runOn u.heap).1 = .ok t ∧
        ∀ v, Leads (u.next (.define d)) v → (Operation.define d).perform.runOn v.heap = (.ok t, v.heap)) := by
  obtain ⟨rfl, hfamily⟩ := hs.family_declared hrun hu
  have hreach : Reachable u := (hs.next _ (allows_of_none rfl)).leads hu
  refine ⟨fun e hname => ?_, fun hparams hroom => ?_⟩
  · have htaken : u.heap.types.family? e.name = some d.family := by rw [hname, hfamily]
    refine ⟨fun hsame => ?_, fun hother => ?_, ?_⟩
    · rw [(Declaration.eq_iff_sameShape hname).2 hsame]
      exact runOn_onTypes_same (TypeTable.runOn_declareOrFind_same hfamily)
    · rw [← hname]
      refine runOn_onTypes_same (TypeTable.runOn_declareOrFind_other htaken fun heq => hother ?_)
      exact (Declaration.eq_iff_sameShape hname).1 (Declaration.family_injective heq).symm
    · obtain ⟨err, hdeclare⟩ := TypeTable.runOn_declare_taken htaken
      exact ⟨err, runOn_onTypes_same hdeclare⟩
  · have htypes := hreach.sound.heap.registry.types
    rcases hnext : u.heap.types.nextRef with err | n
    · exact absurd (htypes.full_of_nextRef hnext) hroom
    · obtain ⟨t, tt, hdefine, happlied⟩ := TypeTable.define_yields htypes hreach.given hfamily hparams hnext
      refine ⟨t, congrArg Prod.fst hdefine, fun v hv => ?_⟩
      have hgrows := hv.grows (hreach.next (.define d) (allows_of_none rfl)).sound
      have hafter : (u.next (.define d)).heap.types = tt := by
        rw [next_heap]
        exact congrArg Prod.snd hdefine
      rw [← hafter] at happlied
      have hlater := hu.trans ((Leads.refl.next (.define d) (allows_of_none rfl)).trans hv)
      have hfamily := (hs.family_declared hrun hlater).2
      exact runOn_onTypes_same (TypeTable.runOn_define_applied hfamily hparams (happlied.extends hgrows.extends.types))

/-- Structs with two fields of different sizes. -/
def twoSized : Declaration where
  name := "Mixed"
  kind := .struct
  fields := [("small", .type Builtin.int8), ("large", .type Builtin.int64)]

/-- Such structs, and tuples of them. -/
def twoSizedLater : Session :=
  start ⟨64, 4096⟩ .off
    |>.next (.declareOrFind twoSized)
    |>.next (.tupleType [tier 0])

/-- The same declaration is found, the one with the fields in another order is refused. -/
theorem redeclaration_reordered :
    Reachable twoSizedLater ∧
      (Operation.declareOrFind twoSized).perform.runOn twoSizedLater.heap = (.ok twoSized.family, twoSizedLater.heap) ∧
      (Operation.declareOrFind { twoSized with fields := twoSized.fields.reverse }).perform.runOn twoSizedLater.heap =
        (.error (.invalidDefinition "type Mixed is already declared with a different shape"), twoSizedLater.heap) ∧
      ∃ t, ∀ v, Leads (twoSizedLater.next (.define twoSized)) v →
        (Operation.define twoSized).perform.runOn v.heap = (.ok t, v.heap) := by
  have hs : Reachable (start ⟨64, 4096⟩ .off) := reachable_start _ _
  have hdeclared : ((Operation.declareOrFind twoSized).perform.runOn (start ⟨64, 4096⟩ .off).heap).1 =
      .ok twoSized.family := by decide +kernel
  have hleads : Leads ((start ⟨64, 4096⟩ .off).next (.declareOrFind twoSized)) twoSizedLater :=
    Leads.refl.next _ (allows_of_none rfl)
  have hroom : ¬twoSizedLater.heap.types.Full := by
    have hsize : twoSizedLater.heap.types.types.size = 22 := by decide +kernel
    rw [TypeTable.Full, hsize]
    decide
  obtain ⟨hshapes, hdefine⟩ := hs.redeclaration (Prod.ext hdeclared rfl) hleads
  obtain ⟨t, -, ht⟩ := hdefine rfl hroom
  refine ⟨(hs.next _ (allows_of_none rfl)).leads hleads, ?_, ?_, t, ht⟩
  · exact (hshapes twoSized rfl).1 ⟨rfl, rfl, rfl, rfl, rfl, rfl, rfl⟩
  · refine (hshapes { twoSized with fields := twoSized.fields.reverse } rfl).2.1 fun hsame => ?_
    have hnames : twoSized.fields.reverse.map Prod.fst ≠ twoSized.fields.map Prod.fst := by decide
    exact hnames hsame.fieldNames

end Session

end TypedHeap
