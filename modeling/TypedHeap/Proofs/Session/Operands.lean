import TypedHeap.Proofs.Node.Reading
import TypedHeap.Proofs.Session.RoundTrip
import TypedHeap.Proofs.Session.Unions

/-!
# Operands of joins along a run

A join keeps its edges in one vector and its values in another. They are equally long when the join is made from a
node, but both may be changed by whoever gets hold of them. The operands of a join are pairs, as many as the shorter
vector has elements.

* `Nodes.Paired`: what operands are, given the edges and the values.

Main results: `Session.Reachable.operands_paired`, and `Session.edge_dropped`, where an edge has no value and is left
out.
-/

namespace TypedHeap

open Heap

namespace Nodes

variable {edges : List Int32} {values : List (Option Value)} {operands : List (Int32 × Option Value)}

/-- Operands are the first edges, each with the value at the same index, as far as there are edges and values. -/
structure Paired (edges : List Int32) (values : List (Option Value)) (operands : List (Int32 × Option Value)) :
    Prop where
  length : operands.length = min edges.length values.length
  edges : operands.map Prod.fst <+: edges
  values : operands.map Prod.snd <+: values

theorem paired_zip (edges : List Int32) (values : List (Option Value)) : Paired edges values (edges.zip values) where
  length := List.length_zip
  edges := by
    rw [List.zip_eq_zip_take_min, List.map_fst_zip (by simp)]
    exact List.take_prefix _ edges
  values := by
    rw [List.zip_eq_zip_take_min, List.map_snd_zip (by simp)]
    exact List.take_prefix _ values

/-- Nothing is left out if there are as many edges as values, and only then. -/
theorem Paired.complete_iff (h : Paired edges values operands) :
    operands.map Prod.fst = edges ∧ operands.map Prod.snd = values ↔ edges.length = values.length := by
  have hedges := h.edges.eq_of_length_le
  have hvalues := h.values.eq_of_length_le
  have hlength := h.length
  rw [List.length_map] at hedges hvalues
  refine ⟨fun ⟨hfst, hsnd⟩ => ?_, fun heq => ⟨hedges (by omega), hvalues (by omega)⟩⟩
  rw [← hfst, ← hsnd, List.length_map, List.length_map]

end Nodes

namespace Session

variable {r s : Session} {ts : NodeTypes} {v : Value}

/-- Objects have operands if and only if they are read as joins. The operands of a join are its edges paired with its
values, which are as many as there are elements in the vectors in the two fields. Nothing is left out if and only if
these are equally long. -/
theorem Reachable.operands_paired (hr : Reachable r)
    (hts : ((Operation.registerNodes).perform.runOn r.heap).1 = .ok ts) (hs : Leads (r.next .registerNodes) s) :
    ((∃ operands, ((Operation.phiOperands ts v).perform.runOn s.heap).1 = .ok operands) ↔
      ∃ edges values, ((Operation.decode ts v).perform.runOn s.heap).1 = .ok (.phi edges values)) ∧
    ∀ edges values, ((Operation.decode ts v).perform.runOn s.heap).1 = .ok (.phi edges values) →
      (∃ es vs, (Operation.fieldRead v 0).perform.runOn s.heap = (.ok (.ref es), s.heap) ∧
        (Operation.fieldRead v 1).perform.runOn s.heap = (.ok (.ref vs), s.heap) ∧
        ArrayObject.length s.heap es = .ok edges.length ∧ ArrayObject.length s.heap vs = .ok values.length) ∧
      ∃ operands, (Operation.phiOperands ts v).perform.runOn s.heap = (.ok operands, s.heap) ∧
        Nodes.Paired edges values operands ∧
        (operands.map Prod.fst = edges ∧ operands.map Prod.snd = values ↔ edges.length = values.length) := by
  have hs' := (hr.next .registerNodes (allows_of_none rfl)).leads hs
  have hreg := Leads.registered hr.sound hts hs
  have hsound := hs'.sound.heap
  refine ⟨⟨fun ⟨operands, hoperands⟩ => ?_, fun ⟨edges, values, hdecode⟩ => ?_⟩, fun edges values hdecode => ?_⟩
  · obtain ⟨hk, edges, values, hparts⟩ := (Nodes.phiOperands_asks hsound hreg v).answer operands hoperands
    exact ⟨edges, values, congrArg Prod.fst (Nodes.runOn_decode_phi hk hparts)⟩
  · obtain ⟨hk, hparts⟩ := Nodes.phiParts_of_decode hsound hs'.belowAbstract hreg hdecode
    exact ⟨_, congrArg Prod.fst (Nodes.runOn_phiOperands hk hparts)⟩
  · obtain ⟨hk, hparts⟩ := Nodes.phiParts_of_decode hsound hs'.belowAbstract hreg hdecode
    obtain ⟨l, ht, hl⟩ := Nodes.exists_layout_of_kindOf hsound hreg hk
    obtain ⟨hvectors, -⟩ := (Nodes.phiParts_asks hsound ht hl).answer (edges, values) (congrArg Prod.fst hparts)
    have hpaired := Nodes.paired_zip edges values
    exact ⟨hvectors, _, Nodes.runOn_phiOperands hk hparts, hpaired, hpaired.complete_iff⟩

/-- A join with one edge, to which another one is added. -/
def lopsided : Session :=
  main
    |>.next (.encode nodeTypes (.phi [1] [some (object 16)]))
    |>.next (.box .int32 (2 : Int32))
    |>.next (.push (object 80) (object 272))

theorem leads_lopsided : Leads ((start ⟨64, 4096⟩ .off).next .registerNodes) lopsided :=
  (((Leads.refl.next _ (allows_of_none rfl)).next _ (allows_of_none rfl)).next _ (allows_of_none rfl)).next _
    (allows_of_none rfl)

theorem registered_main :
    ((Operation.registerNodes).perform.runOn (start ⟨64, 4096⟩ .off).heap).1 = .ok nodeTypes := by
  decide +kernel

/-- It is read with both edges, and there is room for another one like it. -/
theorem decode_lopsided :
    ((Operation.decode nodeTypes (object 240)).perform.runOn lopsided.heap).1 =
        .ok (.phi [1, 2] [some (object 16)]) ∧
      endBehind lopsided.heap.top ((Node.phi [1, 2] [some (object 16)]).demand nodeTypes).payloads ≤
        lopsided.heap.limit := by
  decide +kernel

theorem operands_paired_lopsided :
    ∃ operands, (Operation.phiOperands nodeTypes (object 240)).perform.runOn lopsided.heap =
        (.ok operands, lopsided.heap) ∧
      Nodes.Paired [1, 2] [some (object 16)] operands ∧
      ¬(operands.map Prod.fst = [1, 2] ∧ operands.map Prod.snd = [some (object 16)]) := by
  obtain ⟨-, hall⟩ := (reachable_start ⟨64, 4096⟩ .off).operands_paired registered_main leads_lopsided
  obtain ⟨-, operands, hrun, hpaired, hcomplete⟩ := hall _ _ decode_lopsided.1
  exact ⟨operands, hrun, hpaired, hcomplete.not.2 (by decide)⟩

/-- Only the first edge is among the operands. -/
theorem edge_dropped :
    Reachable lopsided ∧
      ((Operation.decode nodeTypes (object 240)).perform.runOn lopsided.heap).1 =
        .ok (.phi [1, 2] [some (object 16)]) ∧
      ((Operation.phiOperands nodeTypes (object 240)).perform.runOn lopsided.heap).1 =
        .ok [(1, some (object 16))] := by
  have hr := reachable_start ⟨64, 4096⟩ .off
  have hs : Reachable lopsided := (hr.next .registerNodes (allows_of_none rfl)).leads leads_lopsided
  obtain ⟨hk, hparts⟩ := Nodes.phiParts_of_decode hs.sound.heap hs.belowAbstract
    (Leads.registered hr.sound registered_main leads_lopsided) decode_lopsided.1
  exact ⟨hs, decode_lopsided.1, congrArg Prod.fst (Nodes.runOn_phiOperands hk hparts)⟩

end Session

end TypedHeap
