import TypedHeap.Proofs.Node.Making
import TypedHeap.Proofs.Session.Isolation
import TypedHeap.Proofs.Session.Layouts
import TypedHeap.Proofs.Session.Walks

/-!
# Nodes there and back

A program is taken apart into nodes, each of which becomes an object, and what these objects say is read back
from them. Whatever a node is about, it comes back as it was.

Main result: `Session.Reachable.nodes_round_trip`.
-/

namespace TypedHeap

open Heap

namespace Session

variable {r s t : Session} {ts : NodeTypes} {n : Node} {v : Value}

/-! ## Along a run -/

/-- Symbols keep their keys. -/
theorem Leads.symbols (h : Leads s t) (hs : s.Sound) : s.heap.symbols.Grows t.heap.symbols :=
  h.preserves (P := fun h' => s.heap.symbols.Grows h'.symbols) hs (fun trail hs hg => hg.trans (trail.symbols hs))
    (.refl _)

theorem Reachable.orderly (hs : Reachable s) : s.heap.Orderly where
  sound := hs.sound.heap
  types := hs.ordered
  keys := by
    obtain ⟨config, barrier, h⟩ := hs
    exact (h.symbols (start_sound config barrier)).bounded builtin_names.1

/-- Node types that were registered are registered for the rest of the run. -/
theorem Leads.registered (hr : r.Sound) (hts : ((Operation.registerNodes).perform.runOn r.heap).1 = .ok ts)
    (h : Leads (r.next .registerNodes) s) : ts.Registered s.heap.types := by
  have hmeets := onTypes_meets (NodeTypes.register_meets hr.heap.registry.types)
  have hnext := hmeets.answer ts hts
  have hgrows := h.grows (next_sound hr .registerNodes (allows_of_none rfl))
  rw [next_heap] at hgrows
  exact hnext.extends hgrows.types.extends

/-! ## Nodes that cannot change -/

/-- Only expressions can be changed, and joins refer to vectors that can. -/
theorem final_of_represents (hreg : ts.Registered s.heap.types) (hn : n.Represents ts s.heap v)
    (hfixed : n.isFixed = true) (hnode : n.kind?.isSome = true) : s.Final v := by
  obtain ⟨k, hk⟩ := Option.isSome_iff_exists.1 hnode
  have hkind := hn.kindOf hreg
  rw [hk] at hkind
  obtain ⟨t, ht, hkind⟩ := bind_eq_ok.1 hkind
  have htype := NodeTypes.ofKind_of_kindOf? (Except.ok.inj hkind)
  obtain ⟨c, hc, hstruct, hmutable, -⟩ := hreg.exists_struct k
  rw [htype] at hc
  refine ⟨c, descriptor_eq_ok.2 ⟨t, ht, hc⟩, ?_⟩
  rw [hstruct]
  show c.isMutable = false
  rw [hmutable, beq_eq_false_iff_ne]
  rintro rfl
  cases n with
  | expr => cases hfixed
  | slot index declared => cases declared <;> cases hk
  | _ => cases hk

/-- If what a node is about is there, and there is room for the objects that the node needs, then an object is
made for the node. The object is of the kind of the node, and what it says is the node. Unless the node keeps
values in a vector, the object says the same after whatever operations follow. -/
theorem Reachable.nodes_round_trip (hr : Reachable r)
    (hts : ((Operation.registerNodes).perform.runOn r.heap).1 = .ok ts) (hs : Leads (r.next .registerNodes) s)
    (hn : n.Valid ts s.heap) (hroom : s.heap.Affords (n.demand ts)) :
    ∃ v, ((Operation.encode ts n).perform.runOn s.heap).1 = .ok v ∧
      ((Operation.decode ts v).perform.runOn (s.next (.encode ts n)).heap).1 = .ok n ∧
      Nodes.kindOf ts (s.next (.encode ts n)).heap v = .ok n.kind? ∧
      (n.isFixed = true → ∀ t, Leads (s.next (.encode ts n)) t →
        ((Operation.decode ts v).perform.runOn t.heap).1 = .ok n) := by
  have hs' := (hr.next .registerNodes (allows_of_none rfl)).leads hs
  have hreg := Leads.registered hr.sound hts hs
  obtain ⟨v, h, hrun, hm, hv⟩ := Node.encode_makes hs'.orderly hreg hn hroom
  have hperform : (Operation.encode ts n).perform.runOn s.heap = (.ok v, h) := hrun
  have hheap : (s.next (.encode ts n)).heap = h := by rw [next_heap, hperform]
  have hreg' : ts.Registered (s.next (.encode ts n)).heap.types := by
    rw [hheap]
    exact hreg.made hm
  have hnext := next_sound hs'.sound (.encode ts n) (allows_of_none rfl)
  rw [← hheap] at hv
  refine ⟨v, congrArg Prod.fst hperform, congrArg Prod.fst (hv.runOn_decode hnext.heap hreg'), hv.kindOf hreg',
    fun hfixed t ht => ?_⟩
  have hfinal := final_of_represents hreg' hv hfixed
  have hkept := hv.keeps hfixed hnext.heap (ht.keeps hnext) (fun hnode _ => not_not_intro (hfinal hnode))
    (ht.symbols hnext)
  exact congrArg Prod.fst (hkept.runOn_decode (ht.sound hnext).heap
    (hreg'.extends (ht.grows hnext).types.extends))

/-- Node types, and a module. -/
def main : Session := start ⟨64, 4096⟩ .off |>.next .registerNodes |>.next (.newModule "Main" none)

/-- A join of the module and of something undefined, and the name of something in the module. -/
def join : Node := .phi [1, -1] [some (object 16), none]

def named : Node := .global (object 16) "print"

theorem nodes_round_trip_main :
    (∃ v, ((Operation.encode nodeTypes join).perform.runOn main.heap).1 = .ok v ∧
      ((Operation.decode nodeTypes v).perform.runOn (main.next (.encode nodeTypes join)).heap).1 = .ok join) ∧
    ∃ v, ((Operation.encode nodeTypes named).perform.runOn main.heap).1 = .ok v ∧
      Nodes.kindOf nodeTypes (main.next (.encode nodeTypes named)).heap v = .ok (some .global) ∧
      ∀ t, Leads (main.next (.encode nodeTypes named)) t →
        ((Operation.decode nodeTypes v).perform.runOn t.heap).1 = .ok named := by
  have hr := reachable_start ⟨64, 4096⟩ .off
  have hts : ((Operation.registerNodes).perform.runOn (start ⟨64, 4096⟩ .off).heap).1 = .ok nodeTypes := by
    decide +kernel
  have hs : Leads ((start ⟨64, 4096⟩ .off).next .registerNodes) main := .next .refl _ (allows_of_none rfl)
  have hmodule : main.heap.typeOf (object 16) = .ok Builtin.moduleType := by decide +kernel
  have hjoin : join.Valid nodeTypes main.heap := by
    refine ⟨rfl, fun v hv => ?_⟩
    obtain rfl : v = object 16 := by simpa using hv
    exact live_of_typeOf hmodule
  obtain ⟨v, hv, hdecode, -, -⟩ := hr.nodes_round_trip hts hs hjoin ⟨by decide +kernel, trivial⟩
  obtain ⟨w, hw, -, hkind, hstays⟩ := hr.nodes_round_trip (n := named) hts hs hmodule
    ⟨by decide +kernel, .inr (by decide +kernel), trivial⟩
  exact ⟨⟨v, hv, hdecode⟩, w, hw, hkind, hstays rfl⟩

end Session

end TypedHeap
