import TypedHeap.Proofs.Session.Layouts
import TypedHeap.Proofs.Types.Join

/-!
# Unions along a run

The union of some types is asked for in any order, with any nesting, and more than once. It always is the
same type: the least one above all of them.

* `Session.United`: the union of some types was asked for in the past.

Main result: `Session.Reachable.unions_join`.
-/

namespace TypedHeap

open TypedHeap.Action (Meets)
open Heap

namespace Session

variable {s v : Session} {ts us : List TypeRef} {t u w : TypeRef}

/-- At some moment before `v` somebody asked for the union of `ts`, and got `u`. -/
def United (v : Session) (ts : List TypeRef) (u : TypeRef) : Prop :=
  ∃ s, Reachable s ∧ ((Operation.union ts).perform.runOn s.heap).1 = .ok u ∧ Leads (s.next (.union ts)) v

theorem Reachable.belowAbstract (hs : Reachable s) : s.heap.types.BelowAbstract := by
  intro name f sup
  exact TypeTable.Path.belowAbstract hs.grown TypeTable.belowAbstract_builtin

/-- The union that was given comes to the atoms of what was put into it. -/
theorem United.joins (h : v.United ts u) : v.heap.types.Joins ts u := by
  obtain ⟨s, hs, hanswer, hv⟩ := h
  have hnext : Reachable (s.next (.union ts)) := hs.next _ (allows_of_none rfl)
  have hjoins : (s.next (.union ts)).heap.types.Joins ts u := by
    rw [next_heap]
    exact (onTypes_meets (TypeTable.union_meets hs.sound.heap.registry.types ts)).answer u hanswer
  exact hjoins.extends (hv.grows hnext.sound).extends.types

/-- In every registry that operations lead to:

* there is a union of any types that are registered, as long as one more type can be;
* a union that was given is given again, without a change; it is the first type if that is put into it, the
  only atom if there is one alone, and the least type above all that were put into it;
* types with the same atoms have the same union;
* applying the family of unions gives the union;
* the union of two unions is that of everything that was put into them. -/
theorem Reachable.unions_join (hs : Reachable s) :
    (∀ ts, (∀ t ∈ ts, s.heap.types.contains t = true) → s.heap.types.types.size + 1 < 0x100000000 →
      ∃ u, ((Operation.union ts).perform.runOn s.heap).1 = .ok u) ∧
    (∀ ts u, s.United ts u →
      (Operation.union ts).perform.runOn s.heap = (.ok u, s.heap) ∧
      (Builtin.any ∈ ts → u = Builtin.any) ∧
      (∀ a, (∀ b, s.heap.types.Atom ts b ↔ b = a) → u = a) ∧
      (∀ t ∈ ts, s.heap.types.isa t u = .ok true) ∧
      ∀ w, s.heap.types.contains w = true → (∀ t ∈ ts, s.heap.types.isa t w = .ok true) →
        s.heap.types.isa u w = .ok true) ∧
    (∀ ts us, (∀ t ∈ ts, s.heap.types.contains t = true) → (∀ t ∈ us, s.heap.types.contains t = true) →
      (∀ a, s.heap.types.Atom ts a ↔ s.heap.types.Atom us a) →
      (Operation.union ts).perform.runOn s.heap = (Operation.union us).perform.runOn s.heap) ∧
    (∀ ts, (∀ t ∈ ts, s.heap.types.contains t = true) →
      (Operation.apply "Union" (Params.ofTypes ts)).perform.runOn s.heap =
        (Operation.union ts).perform.runOn s.heap) ∧
    ∀ ts us u w, s.United ts u → s.United us w →
      (Operation.union [u, w]).perform.runOn s.heap = (Operation.union (ts ++ us)).perform.runOn s.heap := by
  have htypes := hs.sound.heap.registry.types
  have ho := hs.ordered
  have hb : s.heap.types.BelowAbstract := hs.belowAbstract
  refine ⟨fun ts hts hroom => TypeTable.union_yields htypes ho hts hroom, fun ts u hu => ?_,
    fun ts us hts hus hatoms => ?_, fun ts hts => ?_, fun ts us u w hu hw => ?_⟩
  · have hjoins := hu.joins
    refine ⟨runOn_onTypes_same (hjoins.runOn_union htypes ho), hjoins.top, fun a ha => ?_,
      fun t ht => hjoins.upper htypes ho hb ht, fun w hw hall => hjoins.least htypes ho hb hw hall⟩
    exact hjoins.eq_of_atom htypes ho ha
  · exact runOn_onTypes_congr (TypeTable.runOn_union_congr htypes ho hts hus hatoms)
  · exact runOn_onTypes_congr (TypeTable.runOn_apply_union htypes ho hts)
  · exact runOn_onTypes_congr (hu.joins.runOn_union_pair hw.joins htypes ho)

/-- Two unions that share a member. -/
def overlapping : Session :=
  start ⟨64, 4096⟩ .off
    |>.next (.union [Builtin.int8, Builtin.int16])
    |>.next (.union [Builtin.int32, Builtin.int16])

theorem unions_join_overlapping :
    Reachable overlapping ∧ overlapping.United [Builtin.int8, Builtin.int16] (tier 0) ∧
      overlapping.United [Builtin.int32, Builtin.int16] (tier 1) ∧
      (Operation.union [tier 0, tier 1]).perform.runOn overlapping.heap =
        (Operation.union [Builtin.int8, Builtin.int16, Builtin.int32, Builtin.int16]).perform.runOn
          overlapping.heap := by
  have h₀ : Reachable (start ⟨64, 4096⟩ .off) := reachable_start _ _
  have h₁ := h₀.next (.union [Builtin.int8, Builtin.int16]) (allows_of_none rfl)
  have h₂ : Reachable overlapping := h₁.next (.union [Builtin.int32, Builtin.int16]) (allows_of_none rfl)
  have hfirst : overlapping.United [Builtin.int8, Builtin.int16] (tier 0) :=
    ⟨_, h₀, by decide +kernel, .next .refl _ (allows_of_none rfl)⟩
  have hsecond : overlapping.United [Builtin.int32, Builtin.int16] (tier 1) := ⟨_, h₁, by decide +kernel, .refl⟩
  exact ⟨h₂, hfirst, hsecond, h₂.unions_join.2.2.2.2 _ _ _ _ hfirst hsecond⟩

end Session

end TypedHeap
