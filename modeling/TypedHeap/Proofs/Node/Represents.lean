import TypedHeap.Node.Codec
import TypedHeap.Proofs.Node.Schema
import TypedHeap.Proofs.Node.Walk
import TypedHeap.Proofs.Object.Contents

/-!
# What node objects say

Whether an object says what a node says can be told from its fields and from the vectors that they refer to.
Reading such an object gives the node.

* `Nodes.edge`: an edge number as an element of a vector.
* `Node.Represents`: an object says what a node says.
* `Node.isFixed`: nodes that no vector is needed for.

Main results: `Represents.runOn_decode`, `Represents.keeps`.
-/

namespace TypedHeap

open TypedHeap.Action (runOn_bind_ok runOn_look runOn_pure runOn_attempt runOn_mapM_range)
open Heap ArrayObject

variable {h h' : Heap} {ts : NodeTypes} {a v x : Value} {k : NodeKind} {n : Node} {cs : List Content}
  {S : Value → Nat → Prop} {α : Type}

/-- The kind of an object of a node type. -/
theorem Heap.RecordOf.kindOf (hr : h.RecordOf v (ts.ofKind k) cs) (hreg : ts.Registered h.types) :
    Nodes.kindOf ts h v = .ok (some k) := by
  unfold Nodes.kindOf
  rw [hr.type]
  exact congrArg Except.ok (hreg.kindOf?_eq_some.2 rfl)

namespace Nodes

/-! ## Vectors -/

/-- An edge number as an element of a vector. -/
def edge (n : Int32) : Datum := .bits Builtin.int32 (LittleEndian.toBytes 4 n.toUInt32.toNat)

theorem read_edge (n : Int32) (h : Heap) : (edge n).read .int32 h = .ok n := by
  have hlength := LittleEndian.length_toBytes (ScalarKind.size .int32) n.toUInt32.toNat
  show ScalarKind.decode h.symbols .int32 (LittleEndian.toBytes (ScalarKind.size .int32) _) = .ok n
  rw [ScalarKind.decode, if_neg (Nat.not_lt.2 (Nat.le_of_eq hlength.symm)),
    List.take_of_length_le (Nat.le_of_eq hlength), LittleEndian.ofBytes_toBytes_of_lt n.toUInt32.toNat_lt]
  simp [ScalarKind.ofWord]

theorem runOn_edges {es : List Int32} (hl : Lists h a (es.map fun n => some (edge n))) :
    (edges a).runOn h = (.ok es, h) := by
  have hlength : (Action.look (ArrayObject.length · a)).runOn h = (.ok es.length, h) := by
    rw [runOn_look, hl.length, List.length_map]
  unfold edges
  rw [runOn_bind_ok hlength]
  refine runOn_mapM_range fun i n hn => ?_
  have hget := hl.get i
  rw [answer, List.getElem?_map, hn] at hget
  unfold getScalar
  rw [runOn_bind_ok hget, runOn_look, read_edge]

theorem runOn_optionalElements {vs : List (Option Value)} (hl : Lists h a (vs.map (Option.map .ref))) :
    (optionalElements a).runOn h = (.ok vs, h) := by
  have hlength : (Action.look (ArrayObject.length · a)).runOn h = (.ok vs.length, h) := by
    rw [runOn_look, hl.length, List.length_map]
  unfold optionalElements
  rw [runOn_bind_ok hlength]
  refine runOn_mapM_range fun i x hx => ?_
  have hget := hl.get i
  rw [answer, List.getElem?_map, hx] at hget
  have hattempt := runOn_attempt (ArrayObject.get a i) h
  rw [hget] at hattempt
  unfold optionalElement
  rw [runOn_bind_ok hattempt]
  cases x <;> rfl

theorem runOn_firstArguments {xs : List Value} (hs : h.Sound) (hargs : HasArguments ts h x xs) :
    (firstArguments ts x xs.length).runOn h = (.ok xs, h) := by
  obtain ⟨args, hargs, hl⟩ := hargs
  refine runOn_mapM_range fun i y hy => ?_
  obtain ⟨r, hrun, hr⟩ := runOn_argument hs hargs hl i
  rw [List.getElem?_map, hy] at hr
  cases r with
  | error e => cases hr
  | ok z =>
    cases hr
    exact hrun

/-! ## Joins and expressions -/

theorem runOn_expectKind {y : HeapM α} (hk : kindOf ts h v = .ok (some k)) :
    (Action.look (expectKind ts k · v) >>= fun _ => y).runOn h = y.runOn h :=
  runOn_bind_ok (by rw [runOn_look, expectKind_eq_ok.2 hk])

theorem runOn_phiParts {t : TypeRef} {es vs : Value} {edges : List Int32} {values : List (Option Value)}
    (hr : h.RecordOf v t [.ref (some es), .ref (some vs)]) (hs : h.Sound)
    (hes : Lists h es (edges.map fun n => some (edge n))) (hvs : Lists h vs (values.map (Option.map .ref))) :
    (phiParts v).runOn h = (.ok (edges, values), h) :=
  (runOn_bind_ok (hr.runOn_readRef hs rfl)).trans <| (runOn_bind_ok (runOn_edges hes)).trans <|
    (runOn_bind_ok (hr.runOn_readRef hs rfl)).trans (runOn_bind_ok (runOn_optionalElements hvs))

section Kinds

variable (hreg : ts.Registered h.types) (hs : h.Sound)

include hreg hs

theorem runOn_phicValues {vs : Value} {values : List (Option Value)}
    (hr : h.RecordOf v (ts.ofKind .phic) [.ref (some vs)]) (hvs : Lists h vs (values.map (Option.map .ref))) :
    (phicValues ts v).runOn h = (.ok values, h) :=
  (runOn_expectKind (hr.kindOf hreg)).trans <| (runOn_bind_ok (hr.runOn_readRef hs rfl)).trans
    (runOn_optionalElements hvs)

theorem runOn_head {head : Symbol} (hr : h.RecordOf v (ts.ofKind .expr) (.scalar .symbol head :: cs)) :
    (Nodes.head ts v).runOn h = (.ok head, h) :=
  (runOn_expectKind (hr.kindOf hreg)).trans (hr.runOn_readScalar hs rfl)

theorem argumentsOf_of_record {c : Content} (hr : h.RecordOf v (ts.ofKind .expr) [c, .ref (some a)]) :
    ArgumentsOf ts h v a := by
  have hrun : (argumentVector ts v).runOn h = (.ok a, h) :=
    (runOn_expectKind (hr.kindOf hreg)).trans (runOn_bind_ok (hr.runOn_read_ref hs rfl))
  rw [ArgumentsOf, hrun]

end Kinds

end Nodes

namespace Node

/-! ## Objects for nodes -/

/-- An object says what a node says. -/
def Represents (ts : NodeTypes) (h : Heap) (v : Value) : Node → Prop
  | .goto label => h.RecordOf v (ts.ofKind .goto) [.scalar .int64 label]
  | .line number file => h.RecordOf v (ts.ofKind .line) [.scalar .int64 number, .scalar .symbol file]
  | .quote x => h.RecordOf v (ts.ofKind .quote) [.ref (some x)]
  | .slot index none => h.RecordOf v (ts.ofKind .slot) [.scalar .int64 index]
  | .slot index (some t) => h.RecordOf v (ts.ofKind .typedSlot) [.scalar .int64 index, .scalar .dataType t]
  | .global home name => h.RecordOf v (ts.ofKind .global) [.ref (some home), .scalar .symbol name]
  | .phi edges values => ∃ es vs, h.RecordOf v (ts.ofKind .phi) [.ref (some es), .ref (some vs)] ∧
      Lists h es (edges.map fun n => some (Nodes.edge n)) ∧ Lists h vs (values.map (Option.map .ref))
  | .phic values => ∃ vs, h.RecordOf v (ts.ofKind .phic) [.ref (some vs)] ∧
      Lists h vs (values.map (Option.map .ref))
  | .upsilon x => h.RecordOf v (ts.ofKind .upsilon) [.ref x]
  | .pi x t => h.RecordOf v (ts.ofKind .pi) [.ref (some x), .scalar .dataType t]
  | .newvar x => h.RecordOf v (ts.ofKind .newvar) [.ref (some x)]
  | .ssa id => h.RecordOf v (ts.ofKind .ssa) [.scalar .int64 id]
  | .expr head args => ∃ a, h.RecordOf v (ts.ofKind .expr) [.scalar .symbol head, .ref (some a)] ∧
      Lists h a (args.map fun x => some (.ref x))
  | .literal x => v = x ∧ Nodes.kindOf ts h v = .ok none

/-- Its kind is that of the node. -/
theorem Represents.kindOf (hn : n.Represents ts h v) (hreg : ts.Registered h.types) :
    Nodes.kindOf ts h v = .ok n.kind? := by
  cases n with
  | slot index declared => cases declared <;> exact RecordOf.kindOf hn hreg
  | phi edges values =>
    obtain ⟨es, vs, hr, -⟩ := hn
    exact hr.kindOf hreg
  | phic values =>
    obtain ⟨vs, hr, -⟩ := hn
    exact hr.kindOf hreg
  | expr head args =>
    obtain ⟨a, hr, -⟩ := hn
    exact hr.kindOf hreg
  | literal x => exact hn.2
  | _ => exact RecordOf.kindOf hn hreg

/-! ## Reading -/

theorem Represents.runOn_decodeAs (hn : n.Represents ts h v) (hs : h.Sound) (hreg : ts.Registered h.types)
    (hk : n.kind? = some k) : (Nodes.decodeAs ts v k).runOn h = (.ok n, h) := by
  cases n with
  | goto label | ssa id =>
    cases hk
    exact runOn_bind_ok (RecordOf.runOn_readScalar hn hs rfl)
  | quote x | newvar x =>
    cases hk
    exact runOn_bind_ok (RecordOf.runOn_readRef hn hs rfl)
  | line number file =>
    cases hk
    exact (runOn_bind_ok (RecordOf.runOn_readScalar hn hs rfl)).trans
      (runOn_bind_ok (RecordOf.runOn_readScalar hn hs rfl))
  | slot index declared =>
    cases declared with
    | none =>
      cases hk
      exact runOn_bind_ok (RecordOf.runOn_readScalar hn hs rfl)
    | some t =>
      cases hk
      exact (runOn_bind_ok (RecordOf.runOn_readScalar hn hs rfl)).trans
        (runOn_bind_ok (RecordOf.runOn_readScalar hn hs rfl))
  | global home name | pi x t =>
    cases hk
    exact (runOn_bind_ok (RecordOf.runOn_readRef hn hs rfl)).trans
      (runOn_bind_ok (RecordOf.runOn_readScalar hn hs rfl))
  | upsilon x =>
    cases hk
    have hdefined : (Record.isDefined v 0).runOn h = (.ok x.isSome, h) := RecordOf.runOn_isDefined hn hs rfl
    refine runOn_bind_ok ?_
    unfold Nodes.optionalField
    rw [runOn_bind_ok hdefined]
    cases x with
    | none => rfl
    | some y => exact runOn_bind_ok (RecordOf.runOn_readRef hn hs rfl)
  | phi edges values =>
    cases hk
    obtain ⟨es, vs, hr, hes, hvs⟩ := hn
    exact runOn_bind_ok (Nodes.runOn_phiParts hr hs hes hvs)
  | phic values =>
    cases hk
    obtain ⟨vs, hr, hvs⟩ := hn
    exact runOn_bind_ok (Nodes.runOn_phicValues hreg hs hr hvs)
  | expr head args =>
    cases hk
    obtain ⟨a, hr, ha⟩ := hn
    have hof := Nodes.argumentsOf_of_record hreg hs hr
    have hcount := Nodes.runOn_argumentCount hs hof ha
    rw [List.length_map] at hcount
    exact (runOn_bind_ok hcount).trans <| (runOn_bind_ok (Nodes.runOn_head hreg hs hr)).trans
      (runOn_bind_ok (Nodes.runOn_firstArguments hs ⟨a, hof, ha⟩))
  | literal x => cases hk

/-- An object that says what a node says is read as this node. -/
theorem Represents.runOn_decode (hn : n.Represents ts h v) (hs : h.Sound) (hreg : ts.Registered h.types) :
    (Nodes.decode ts v).runOn h = (.ok n, h) := by
  have hasked : (Action.look (Nodes.kindOf ts · v)).runOn h = (.ok n.kind?, h) := by
    rw [runOn_look, hn.kindOf hreg]
  unfold Nodes.decode
  rw [runOn_bind_ok hasked]
  cases hk : n.kind? with
  | some k => exact hn.runOn_decodeAs hs hreg hk
  | none =>
    cases n with
    | literal x =>
      obtain ⟨rfl, -⟩ := hn
      exact runOn_pure _ h
    | slot index declared => cases declared <;> cases hk
    | _ => cases hk

/-! ## Nodes that cannot change -/

/-- Expressions and joins keep what they say in vectors, which may be changed. -/
def isFixed : Node → Bool
  | .expr .. | .phi .. | .phic .. => false
  | _ => true

/-- The other nodes go on to say what they say. -/
theorem Represents.keeps (hn : n.Represents ts h v) (hfixed : n.isFixed = true) (hs : h.Sound) (hk : Keeps S h h')
    (hS : n.kind?.isSome = true → ∀ j, ¬S v j) (hgrows : h.symbols.Grows h'.symbols) : n.Represents ts h' v := by
  have hrecord {t : TypeRef} {cs : List Content} (hsome : n.kind?.isSome = true) (hr : h.RecordOf v t cs) :
      h'.RecordOf v t cs := hr.keeps hs hk (hS hsome) hgrows
  cases n with
  | expr | phi | phic => cases hfixed
  | slot index declared => cases declared <;> exact hrecord rfl hn
  | literal x =>
    obtain ⟨heq, hkind⟩ := hn
    refine ⟨heq, ?_⟩
    obtain ⟨t, ht, hkind⟩ := bind_eq_ok.1 hkind
    exact bind_eq_ok.2 ⟨t, hk.typeOf ht, hkind⟩
  | _ => exact hrecord rfl hn

end Node

end TypedHeap
