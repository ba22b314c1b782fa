import TypedHeap.Proofs.Session.Operands

/-!
# Nodes that were read and are made again

Whoever makes an object of a node type field by field may put anything there that the fields take. What is read from
such an object is made into an object again at any later point, unless it is something that no maker of nodes lets
through: a join with more edges than values or the other way round, or a type that was never registered.

Main results: `Session.Reachable.decoded_encodes`, and `Session.decoded_refused`, with one object of either sort.
-/

namespace TypedHeap

open Heap

namespace Session

variable {r s u : Session} {ts : NodeTypes} {n : Node} {v : Value}

/-- A node that was read from an object can be made into an object at any later point, given room for it, if and only if
it is well formed. What is read from the new object is the same node. -/
theorem Reachable.decoded_encodes (hr : Reachable r)
    (hts : ((Operation.registerNodes).perform.runOn r.heap).1 = .ok ts) (hs : Leads (r.next .registerNodes) s)
    (hdecode : ((Operation.decode ts v).perform.runOn s.heap).1 = .ok n) (hu : Leads s u)
    (hroom : u.heap.Affords (n.demand ts)) :
    ((∃ w, ((Operation.encode ts n).perform.runOn u.heap).1 = .ok w) ↔ n.WellFormed u.heap.types) ∧
      ∀ w, ((Operation.encode ts n).perform.runOn u.heap).1 = .ok w →
        ((Operation.decode ts w).perform.runOn (u.next (.encode ts n)).heap).1 = .ok n := by
  have hs' := (hr.next .registerNodes (allows_of_none rfl)).leads hs
  have hreg := Leads.registered hr.sound hts (hs.trans hu)
  have hu' := hs'.leads hu
  obtain ⟨-, hgrounded⟩ := (Nodes.decode_asks hs'.sound.heap hs'.belowAbstract
    (Leads.registered hr.sound hts hs) v).answer n hdecode
  have hmakes (hn : n.WellFormed u.heap.types) := Node.encode_makes hu'.orderly hreg
    (Node.valid_iff.2 ⟨hgrounded.extends (hu.keeps hs'.sound).toExtends, hn⟩) hroom
  have hwell {w : Value} (hw : ((Operation.encode ts n).perform.runOn u.heap).1 = .ok w) : n.WellFormed u.heap.types :=
    (Node.encode_ends ts n).answer w _ (Prod.ext hw rfl)
  refine ⟨⟨fun ⟨w, hw⟩ => hwell hw, fun hn => ?_⟩, fun w hw => ?_⟩
  · obtain ⟨w, h, hrun, -⟩ := hmakes hn
    exact ⟨w, congrArg Prod.fst hrun⟩
  · obtain ⟨w', h, hrun, hm, hrepresents⟩ := hmakes (hwell hw)
    have hperform : (Operation.encode ts n).perform.runOn u.heap = (.ok w', h) := hrun
    rw [hperform] at hw
    cases hw
    rw [next_heap, hperform]
    exact congrArg Prod.fst (hrepresents.runOn_decode hm.sound (hreg.made hm))

/-- A value known to be a number. -/
def narrowed : Session := main.next (.encode nodeTypes (.pi (object 16) Builtin.int64))

theorem decoded_encodes_narrowed :
    ((Operation.decode nodeTypes (object 64)).perform.runOn narrowed.heap).1 = .ok (.pi (object 16) Builtin.int64) ∧
    ∃ w, ((Operation.encode nodeTypes (.pi (object 16) Builtin.int64)).perform.runOn narrowed.heap).1 = .ok w ∧
      ((Operation.decode nodeTypes w).perform.runOn
        (narrowed.next (.encode nodeTypes (.pi (object 16) Builtin.int64))).heap).1 =
          .ok (.pi (object 16) Builtin.int64) := by
  have hs : Leads ((start ⟨64, 4096⟩ .off).next .registerNodes) narrowed :=
    (Leads.refl.next _ (allows_of_none rfl)).next _ (allows_of_none rfl)
  have hrun : ((Operation.decode nodeTypes (object 64)).perform.runOn narrowed.heap).1 =
        .ok (.pi (object 16) Builtin.int64) ∧
      endBehind narrowed.heap.top ((Node.pi (object 16) Builtin.int64).demand nodeTypes).payloads ≤ narrowed.heap.limit ∧
      narrowed.heap.types.contains Builtin.int64 = true := by
    decide +kernel
  obtain ⟨hdecode, hroom, hregistered⟩ := hrun
  obtain ⟨hencodes, hdecodes⟩ := (reachable_start ⟨64, 4096⟩ .off).decoded_encodes registered_main hs hdecode .refl
    ⟨hroom, trivial⟩
  obtain ⟨w, hw⟩ := hencodes.2 hregistered
  exact ⟨hdecode, w, hw, hdecodes w hw⟩

/-- A value known to be of a type that was never registered. -/
def unregistered : Session :=
  main
    |>.next (.box .dataType (typeAt 99))
    |>.next (.newRecord nodeTypes.pi [object 16, object 48])

/-- Both objects are read, and there is room for what is read, but no object is made for it. -/
theorem decoded_refused :
    (Reachable lopsided ∧
      ((Operation.decode nodeTypes (object 240)).perform.runOn lopsided.heap).1 =
        .ok (.phi [1, 2] [some (object 16)]) ∧
      lopsided.heap.Affords ((Node.phi [1, 2] [some (object 16)]).demand nodeTypes) ∧
      ((Operation.encode nodeTypes (.phi [1, 2] [some (object 16)])).perform.runOn lopsided.heap).1 =
        .error (.invalidArgument "phi node with 2 edges and 1 values")) ∧
    Reachable unregistered ∧
      ((Operation.decode nodeTypes (object 64)).perform.runOn unregistered.heap).1 =
        .ok (.pi (object 16) (typeAt 99)) ∧
      unregistered.heap.Affords ((Node.pi (object 16) (typeAt 99)).demand nodeTypes) ∧
      ((Operation.encode nodeTypes (.pi (object 16) (typeAt 99))).perform.runOn unregistered.heap).1 =
        .error (.invalidTag 1584 .unregistered) := by
  have hmain : Reachable ((start ⟨64, 4096⟩ .off).next .registerNodes) :=
    (reachable_start _ _).next _ (allows_of_none rfl)
  have hunregistered : Reachable unregistered :=
    ((hmain.next _ (allows_of_none rfl)).next _ (allows_of_none rfl)).next _ (allows_of_none rfl)
  have hrun : ((Operation.decode nodeTypes (object 64)).perform.runOn unregistered.heap).1 =
        .ok (.pi (object 16) (typeAt 99)) ∧
      endBehind unregistered.heap.top ((Node.pi (object 16) (typeAt 99)).demand nodeTypes).payloads ≤
        unregistered.heap.limit ∧
      ((Operation.encode nodeTypes (.pi (object 16) (typeAt 99))).perform.runOn unregistered.heap).1 =
        .error (.invalidTag 1584 .unregistered) := by
    decide +kernel
  obtain ⟨hdecode, hroom, hencode⟩ := hrun
  exact ⟨⟨hmain.leads leads_lopsided, decode_lopsided.1, ⟨decode_lopsided.2, trivial⟩, rfl⟩,
    hunregistered, hdecode, ⟨hroom, trivial⟩, hencode⟩

end Session

end TypedHeap
