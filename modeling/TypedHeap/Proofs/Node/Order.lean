import TypedHeap.Node.Codec
import TypedHeap.Node.Walk
import TypedHeap.Proofs.Array.Order

/-!
# Operations on nodes keep a heap in order

Nodes are made, read and changed by operations on boxes, arrays and objects with fields, and none of them
finds damage.

* `Node.encode_behaves`, `Nodes.decode_behaves`: nodes as objects.
* `Nodes.argument_behaves`, `setHead_behaves`, `pushArgument_behaves`, …: expressions and joins.
* `Nodes.walk_behaves`, `visit_behaves`: walks, which keep the error that stopped them.
-/

namespace TypedHeap

open TypedHeap.Action (Fails)
open Heap
open Error (Innocent)

variable {α : Type} {B : Value → Prop} {h : Heap} {ts : NodeTypes} {e v x : Value} {i n : Nat}

namespace Nodes

/-! ## Kinds -/

theorem kindOf_innocent (hs : h.Sound) (ts : NodeTypes) (v : Value) : Raises (kindOf ts h v) (Innocent B) :=
  Raises.bind (hs.typeOf_innocent v) fun _ _ => .pure

theorem expectKind_innocent (hs : h.Sound) (ts : NodeTypes) (k : NodeKind) (v : Value) :
    Raises (expectKind ts k h v) (Innocent B) := by
  unfold expectKind
  refine Raises.bind (kindOf_innocent hs ts v) fun k' _ => Raises.ite (fun _ => ?_) fun _ => .pure
  refine Raises.bind (hs.typeOf_innocent v) fun t _ => ?_
  exact Raises.bind (render_innocent h.types t) fun _ _ => .throw trivial

/-- A question that only nodes of a kind are asked. -/
theorem expectKind_bind {y : HeapM α} (ho : InOrder B h) (ts : NodeTypes) (k : NodeKind) (v : Value)
    (hy : Behaves B y h) : Behaves B (Action.look (expectKind ts k · v) >>= fun _ => y) h :=
  Behaves.look_bind ho (expectKind_innocent ho.sound ts k v) fun _ _ => hy

/-! ## Expressions -/

theorem argumentVector_behaves (ho : InOrder B h) (ts : NodeTypes) (e : Value) :
    Behaves B (argumentVector ts e) h := by
  refine expectKind_bind ho ts .expr e (Behaves.bind_ran (Record.read_behaves ho e _) fun d _ _ ho => ?_)
  split
  · exact .pure ho
  · exact .throw ho trivial

theorem head_behaves (ho : InOrder B h) (ts : NodeTypes) (e : Value) : Behaves B (head ts e) h :=
  expectKind_bind ho ts .expr e (Record.readScalar_behaves ho .symbol e headField)

theorem setHead_behaves (ho : InOrder B h) (ts : NodeTypes) (e : Value) (s : Symbol) :
    Behaves B (setHead ts e s) h :=
  expectKind_bind ho ts .expr e (Record.writeScalar_behaves ho e headField .symbol s)

theorem argumentCount_behaves (ho : InOrder B h) (ts : NodeTypes) (e : Value) :
    Behaves B (argumentCount ts e) h :=
  Behaves.bind_ran (argumentVector_behaves ho ts e) fun args _ _ ho =>
    .look ho (ArrayObject.length_innocent ho args)

theorem vectorWith_behaves (ho : InOrder B h) (ts : NodeTypes) (e : Value) (i : Nat) :
    Behaves B (vectorWith ts e i) h := by
  unfold vectorWith
  refine Behaves.bind_ran (argumentVector_behaves ho ts e) fun args _ _ ho => ?_
  exact Behaves.look_bind ho (ArrayObject.length_innocent ho args) fun n _ =>
    Behaves.guard ho nofun fun _ => .pure ho

theorem argument_behaves (ho : InOrder B h) (ts : NodeTypes) (e : Value) (i : Nat) :
    Behaves B (argument ts e i) h := by
  unfold argument
  refine Behaves.bind_ran (vectorWith_behaves ho ts e i) fun args _ _ ho => ?_
  refine Behaves.bind_ran (ArrayObject.get_behaves ho args i) fun d _ _ ho => ?_
  split
  · exact .pure ho
  · exact .throw ho trivial

theorem firstArguments_behaves (ho : InOrder B h) (ts : NodeTypes) (e : Value) (count : Nat) :
    Behaves B (firstArguments ts e count) h :=
  Behaves.mapM ho fun i _ _ ho => argument_behaves ho ts e i

theorem setArgument_behaves (ho : InOrder B h) (ts : NodeTypes) (e : Value) (i : Nat) (x : Value) :
    Behaves B (setArgument ts e i x) h :=
  Behaves.bind_ran (vectorWith_behaves ho ts e i) fun args _ _ ho => ArrayObject.set_behaves ho args i x

theorem pushArgument_behaves (ho : InOrder B h) (ts : NodeTypes) (e x : Value) :
    Behaves B (pushArgument ts e x) h :=
  Behaves.bind_ran (argumentVector_behaves ho ts e) fun args _ _ ho => ArrayObject.push_behaves ho args x

/-! ## Joins -/

theorem optionalElement_behaves (ho : InOrder B h) (a : Value) (i : Nat) :
    Behaves B (optionalElement a i) h := by
  refine Behaves.attempt_bind (ArrayObject.get_behaves ho a i) fun r _ hr ho => ?_
  cases r with
  | ok d => exact .pure ho
  | error e =>
    cases e with
    | undefined what => exact .pure ho
    | _ => exact .throw ho (hr _ rfl)

theorem optionalElements_behaves (ho : InOrder B h) (a : Value) : Behaves B (optionalElements a) h :=
  Behaves.look_bind ho (ArrayObject.length_innocent ho a) fun _ _ =>
    Behaves.mapM ho fun i _ _ ho => optionalElement_behaves ho a i

theorem edges_behaves (ho : InOrder B h) (a : Value) : Behaves B (edges a) h :=
  Behaves.look_bind ho (ArrayObject.length_innocent ho a) fun _ _ =>
    Behaves.mapM ho fun i _ _ ho => ArrayObject.getScalar_behaves ho .int32 a i

theorem phiParts_behaves (ho : InOrder B h) (phi : Value) : Behaves B (phiParts phi) h := by
  unfold phiParts
  refine Behaves.bind_ran (Record.readRef_behaves ho phi 0) fun es _ _ ho => ?_
  refine Behaves.bind_ran (edges_behaves ho es) fun _ _ _ ho => ?_
  refine Behaves.bind_ran (Record.readRef_behaves ho phi 1) fun vs _ _ ho => ?_
  exact Behaves.bind_ran (optionalElements_behaves ho vs) fun _ _ _ => .pure

theorem phiOperands_behaves (ho : InOrder B h) (ts : NodeTypes) (phi : Value) :
    Behaves B (phiOperands ts phi) h :=
  expectKind_bind ho ts .phi phi (Behaves.bind_ran (phiParts_behaves ho phi) fun _ _ _ => .pure)

theorem phicValues_behaves (ho : InOrder B h) (ts : NodeTypes) (phic : Value) :
    Behaves B (phicValues ts phic) h :=
  expectKind_bind ho ts .phic phic
    (Behaves.bind_ran (Record.readRef_behaves ho phic 0) fun vs _ _ ho => optionalElements_behaves ho vs)

/-! ## Reading objects -/

theorem optionalField_behaves (ho : InOrder B h) (v : Value) (i : Nat) : Behaves B (optionalField v i) h := by
  unfold optionalField
  refine Behaves.bind_ran (Record.isDefined_behaves ho v i) fun b _ _ ho => Behaves.ite (fun _ => ?_) fun _ => .pure ho
  exact Behaves.bind_ran (Record.readRef_behaves ho v i) fun _ _ _ => .pure

theorem decodeAs_behaves (ho : InOrder B h) (ts : NodeTypes) (v : Value) (k : NodeKind) :
    Behaves B (decodeAs ts v k) h := by
  have scalar {h : Heap} (ho : InOrder B h) (k : ScalarKind) (i : Nat) {y : k.Carrier → HeapM Node}
      (hy : ∀ x (h : Heap), InOrder B h → Behaves B (y x) h) : Behaves B (Record.readScalar k v i >>= y) h :=
    Behaves.bind_ran (Record.readScalar_behaves ho k v i) fun x h _ => hy x h
  have ref {h : Heap} (ho : InOrder B h) (i : Nat) {y : Value → HeapM Node}
      (hy : ∀ x (h : Heap), InOrder B h → Behaves B (y x) h) : Behaves B (Record.readRef v i >>= y) h :=
    Behaves.bind_ran (Record.readRef_behaves ho v i) fun x h _ => hy x h
  cases k with
  | goto => exact scalar ho .int64 0 fun _ _ => .pure
  | line => exact scalar ho .int64 0 fun _ _ ho => scalar ho .symbol 1 fun _ _ => .pure
  | quote => exact ref ho 0 fun _ _ => .pure
  | slot => exact scalar ho .int64 0 fun _ _ => .pure
  | typedSlot => exact scalar ho .int64 0 fun _ _ ho => scalar ho .dataType 1 fun _ _ => .pure
  | global => exact ref ho 0 fun _ _ ho => scalar ho .symbol 1 fun _ _ => .pure
  | phi => exact Behaves.bind_ran (phiParts_behaves ho v) fun _ _ _ => .pure
  | phic => exact Behaves.bind_ran (phicValues_behaves ho ts v) fun _ _ _ => .pure
  | upsilon => exact Behaves.bind_ran (optionalField_behaves ho v 0) fun _ _ _ => .pure
  | pi => exact ref ho 0 fun _ _ ho => scalar ho .dataType 1 fun _ _ => .pure
  | newvar => exact ref ho 0 fun _ _ => .pure
  | ssa => exact scalar ho .int64 0 fun _ _ => .pure
  | expr =>
    refine Behaves.bind_ran (argumentCount_behaves ho ts v) fun n _ _ ho => ?_
    refine Behaves.bind_ran (head_behaves ho ts v) fun _ _ _ ho => ?_
    exact Behaves.bind_ran (firstArguments_behaves ho ts v n) fun _ _ _ => .pure

theorem decode_behaves (ho : InOrder B h) (ts : NodeTypes) (v : Value) : Behaves B (decode ts v) h := by
  refine Behaves.look_bind ho (kindOf_innocent ho.sound ts v) fun k _ => ?_
  cases k with
  | some k => exact decodeAs_behaves ho ts v k
  | none => exact .pure ho

/-! ## Walks -/

theorem argumentsBefore_behaves (ho : InOrder B h) (ts : NodeTypes) (e : Value) (count : Nat)
    (rest : List Value) : Behaves B (argumentsBefore ts e count rest) h := by
  induction count generalizing h rest with
  | zero => exact .pure ho
  | succ count ih => exact Behaves.bind_ran (argument_behaves ho ts e count) fun x _ _ ho => ih ho (x :: rest)

theorem after_behaves (ho : InOrder B h) (ts : NodeTypes) (v : Value) (rest : List Value) :
    Behaves B (after ts v rest) h := by
  unfold after
  refine Behaves.look_bind ho (kindOf_innocent ho.sound ts v) fun k _ => ?_
  split
  · exact Behaves.bind_ran (argumentCount_behaves ho ts v) fun n _ _ ho => argumentsBefore_behaves ho ts v n rest
  · exact .pure ho

/-- Whatever is done with a walk, the error in it is innocent. -/
theorem walkFrom_bind {finish : Walk → HeapM α} (ho : InOrder B h) (ts : NodeTypes) (steps : Nat)
    (seen pending : List Value)
    (hfinish : ∀ w h, Raises w.outcome (Innocent B) → InOrder B h → Behaves B (finish w) h) :
    Behaves B (walkFrom ts steps seen pending >>= finish) h := by
  have hdone {visited : List Value} {outcome : Except Error Nat} {h : Heap} (ho : InOrder B h)
      (hfail : Raises outcome (Innocent B)) : Behaves B (pure ⟨visited, outcome⟩ >>= finish) h :=
    Behaves.pure_bind (hfinish _ h hfail ho)
  induction steps generalizing h seen pending with
  | zero =>
    rw [walkFrom.eq_def]
    dsimp only
    cases pending.dropWhile (seen.contains ·) with
    | nil => exact hdone ho .ok
    | cons v rest => exact hdone ho (.error trivial)
  | succ steps ih =>
    rw [walkFrom.eq_def]
    dsimp only
    cases pending.dropWhile (seen.contains ·) with
    | nil => exact hdone ho .ok
    | cons v rest =>
      dsimp only
      rw [bind_assoc]
      refine Behaves.attempt_bind (after_behaves ho ts v rest) fun r _ hr ho => ?_
      cases r with
      | ok next => exact ih ho (v :: seen) next
      | error e => exact hdone ho (.error (hr e rfl))

theorem walk_behaves (ho : InOrder B h) (ts : NodeTypes) (root : Value) : Behaves B (walk ts root) h := by
  refine Behaves.get_bind ?_
  rw [← bind_pure (walkFrom ts _ _ _)]
  exact walkFrom_bind ho ts _ [] [root] fun _ _ _ => .pure

theorem visit_behaves (ho : InOrder B h) (ts : NodeTypes) (root : Value) : Behaves B (visit ts root) h := by
  unfold visit walk
  rw [bind_assoc]
  refine Behaves.get_bind (walkFrom_bind ho ts _ [] [root] fun w _ hw ho => ?_)
  exact Behaves.lift_bind ho hw fun _ _ => .pure ho

end Nodes

/-! ## Making objects -/

namespace Node

theorem fillDefinedFrom_behaves (ho : InOrder B h) (a : Value) (i : Nat) (xs : List (Option Value)) :
    Behaves B (fillDefinedFrom a i xs) h := by
  induction xs generalizing h i with
  | nil => exact .pure ho
  | cons x xs ih =>
    cases x with
    | none => exact ih ho (i + 1)
    | some x => exact Behaves.bind_ran (ArrayObject.set_behaves ho a i x) fun _ _ _ ho => ih ho (i + 1)

theorem fillFrom_behaves (ho : InOrder B h) (a : Value) (i : Nat) (xs : List Value) :
    Behaves B (fillFrom a i xs) h := by
  rw [fillFrom_eq]
  exact fillDefinedFrom_behaves ho a i _

theorem fillEdgesFrom_behaves (ho : InOrder B h) (a : Value) (i : Nat) (ns : List Int32) :
    Behaves B (fillEdgesFrom a i ns) h := by
  induction ns generalizing h i with
  | nil => exact .pure ho
  | cons n ns ih =>
    exact Behaves.bind_ran (ArrayObject.setScalar_behaves ho a i .int32 n) fun _ _ _ ho => ih ho (i + 1)

theorem optionalVector_behaves (ho : InOrder B h) (values : List (Option Value)) :
    Behaves B (optionalVector values) h :=
  Behaves.bind_ran (ArrayObject.newVector_behaves ho Builtin.any _) fun a _ _ ho =>
    Behaves.bind_ran (fillDefinedFrom_behaves ho a 0 values) fun _ _ _ => .pure

theorem edgeVector_behaves (ho : InOrder B h) (edges : List Int32) : Behaves B (edgeVector edges) h :=
  Behaves.bind_ran (ArrayObject.newVector_behaves ho Builtin.int32 _) fun a _ _ ho =>
    Behaves.bind_ran (fillEdgesFrom_behaves ho a 0 edges) fun _ _ _ => .pure

theorem encodeNumber_behaves (ho : InOrder B h) (t : TypeRef) (n : Int64) : Behaves B (encodeNumber t n) h :=
  Behaves.bind_ran (Box.new_behaves ho .int64 n) fun v _ _ ho => Record.new_behaves ho t [v]

theorem encode_behaves (ho : InOrder B h) (ts : NodeTypes) (n : Node) : Behaves B (encode ts n) h := by
  cases n with
  | goto label => exact encodeNumber_behaves ho ts.goto label
  | line number file =>
    refine Behaves.bind_ran (Box.new_behaves ho .int64 number) fun l _ _ ho => ?_
    exact Behaves.bind_ran (Box.new_behaves ho .symbol file) fun f _ _ ho => Record.new_behaves ho ts.line [l, f]
  | quote v => exact Record.new_behaves ho ts.quote [v]
  | slot index declared =>
    cases declared with
    | none => exact encodeNumber_behaves ho ts.slot index
    | some t =>
      refine Behaves.bind_ran (Box.new_behaves ho .int64 index) fun i _ _ ho => ?_
      exact Behaves.bind_ran (Box.newType_behaves ho t) fun t' _ _ ho => Record.new_behaves ho ts.typedSlot [i, t']
  | global home name =>
    exact Behaves.bind_ran (Box.new_behaves ho .symbol name) fun n _ _ ho => Record.new_behaves ho ts.global [home, n]
  | phi edges values =>
    refine Behaves.guard ho trivial fun _ => Behaves.bind_ran (edgeVector_behaves ho edges) fun es _ _ ho => ?_
    exact Behaves.bind_ran (optionalVector_behaves ho values) fun vs _ _ ho => Record.new_behaves ho ts.phi [es, vs]
  | phic values =>
    exact Behaves.bind_ran (optionalVector_behaves ho values) fun vs _ _ ho => Record.new_behaves ho ts.phic [vs]
  | upsilon value =>
    cases value with
    | some v => exact Record.new_behaves ho ts.upsilon [v]
    | none => exact Record.newUninit_behaves ho ts.upsilon
  | pi v t => exact Behaves.bind_ran (Box.newType_behaves ho t) fun t' _ _ ho => Record.new_behaves ho ts.pi [v, t']
  | newvar s => exact Record.new_behaves ho ts.newvar [s]
  | ssa id => exact encodeNumber_behaves ho ts.ssa id
  | expr head args =>
    refine Behaves.bind_ran (ArrayObject.newVector_behaves ho Builtin.any args.length) fun a _ _ ho => ?_
    refine Behaves.bind_ran (fillFrom_behaves ho a 0 args) fun _ _ _ ho => ?_
    exact Behaves.bind_ran (Box.new_behaves ho .symbol head) fun h _ _ ho => Record.new_behaves ho ts.expr [h, a]
  | literal v => exact .pure ho

end Node

end TypedHeap
