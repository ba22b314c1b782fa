import TypedHeap.Proofs.Array.Blind
import TypedHeap.Proofs.Node.Order

/-!
# Operations on nodes do not see the collector's state

They are put together from operations that do not, and each of these leaves a heap in order for the next one.

* `Nodes.expectKind_eq`, `expectKind_bind_blind`: kinds are read off types.
* `Nodes.argument_blind`, `pushArgument_blind`, `phiOperands_blind`, …: expressions and joins.
* `Node.encode_blind`, `Nodes.decode_blind`: nodes as objects.
* `Nodes.walk_blind`, `visit_blind`: walks, which take as many steps.
-/

namespace TypedHeap

open Heap

variable {α : Type} {B : Value → Prop} {h k : Heap}

namespace Nodes

/-! ## Kinds -/

theorem kindOf_eq (hk : Alike h k) (ts : NodeTypes) (v : Value) : kindOf ts k v = kindOf ts h v := by
  rw [kindOf, kindOf, hk.typeOf_eq]

theorem expectKind_eq (hk : Alike h k) (ts : NodeTypes) (kind : NodeKind) (v : Value) :
    expectKind ts kind k v = expectKind ts kind h v := by
  rw [expectKind, expectKind, kindOf_eq hk, hk.typeOf_eq, hk.types_eq]

/-- A question that only nodes of a kind are asked. -/
theorem expectKind_bind_blind {y : HeapM α} (ts : NodeTypes) (kind : NodeKind) (v : Value) (hy : Blind y h) :
    Blind (Action.look (expectKind ts kind · v) >>= fun _ => y) h :=
  Blind.look_bind (fun _ hk => expectKind_eq hk ts kind v) fun _ _ => hy

/-! ## Expressions -/

theorem argumentVector_blind (hs : h.Sound) (ts : NodeTypes) (e : Value) : Blind (argumentVector ts e) h := by
  refine expectKind_bind_blind ts .expr e (Blind.bind_all (Record.read_blind hs e _) fun d _ => ?_)
  split
  · exact .pure
  · exact .throw

theorem head_blind (hs : h.Sound) (ts : NodeTypes) (e : Value) : Blind (head ts e) h :=
  expectKind_bind_blind ts .expr e (Record.readScalar_blind hs .symbol e headField)

theorem setHead_blind (ts : NodeTypes) (e : Value) (s : Symbol) : Blind (setHead ts e s) h :=
  expectKind_bind_blind ts .expr e (Record.writeScalar_blind e headField .symbol s)

theorem argumentCount_blind (ho : InOrder B h) (ts : NodeTypes) (e : Value) : Blind (argumentCount ts e) h :=
  Blind.bind_ordered (argumentVector_blind ho.sound ts e) (argumentVector_behaves ho ts e) fun args _ ho =>
    .look fun _ hk => ArrayObject.length_eq hk ho.sound args

theorem vectorWith_blind (ho : InOrder B h) (ts : NodeTypes) (e : Value) (i : Nat) :
    Blind (vectorWith ts e i) h := by
  unfold vectorWith
  refine Blind.bind_ordered (argumentVector_blind ho.sound ts e) (argumentVector_behaves ho ts e) fun args _ ho => ?_
  exact Blind.look_bind (fun _ hk => ArrayObject.length_eq hk ho.sound args) fun n _ => Blind.guard fun _ => .pure

theorem argument_blind (ho : InOrder B h) (ts : NodeTypes) (e : Value) (i : Nat) : Blind (argument ts e i) h := by
  unfold argument
  refine Blind.bind_ordered (vectorWith_blind ho ts e i) (vectorWith_behaves ho ts e i) fun args _ ho => ?_
  refine Blind.bind_all (ArrayObject.get_blind ho.sound args i) fun d _ => ?_
  split
  · exact .pure
  · exact .throw

theorem firstArguments_blind (ho : InOrder B h) (ts : NodeTypes) (e : Value) (count : Nat) :
    Blind (firstArguments ts e count) h :=
  Blind.mapM ho fun i _ _ ho => ⟨argument_blind ho ts e i, argument_behaves ho ts e i⟩

theorem setArgument_blind (ho : InOrder B h) (ts : NodeTypes) (e : Value) (i : Nat) (x : Value) :
    Blind (setArgument ts e i x) h :=
  Blind.bind_ordered (vectorWith_blind ho ts e i) (vectorWith_behaves ho ts e i) fun args _ ho =>
    ArrayObject.set_blind ho args i x

theorem pushArgument_blind (ho : InOrder B h) (ts : NodeTypes) (e x : Value) : Blind (pushArgument ts e x) h :=
  Blind.bind_ordered (argumentVector_blind ho.sound ts e) (argumentVector_behaves ho ts e) fun args _ ho =>
    ArrayObject.push_blind ho args x

/-! ## Joins -/

theorem optionalElement_blind (ho : InOrder B h) (a : Value) (i : Nat) : Blind (optionalElement a i) h := by
  refine Blind.attempt_bind (ArrayObject.get_blind ho.sound a i) (ArrayObject.get_behaves ho a i) fun r _ _ => ?_
  cases r with
  | ok d => exact .pure
  | error e =>
    cases e with
    | undefined what => exact .pure
    | _ => exact .throw

theorem optionalElements_blind (ho : InOrder B h) (a : Value) : Blind (optionalElements a) h :=
  Blind.look_bind (fun _ hk => ArrayObject.length_eq hk ho.sound a) fun _ _ =>
    Blind.mapM ho fun i _ _ ho => ⟨optionalElement_blind ho a i, optionalElement_behaves ho a i⟩

theorem edges_blind (ho : InOrder B h) (a : Value) : Blind (edges a) h :=
  Blind.look_bind (fun _ hk => ArrayObject.length_eq hk ho.sound a) fun _ _ => Blind.mapM ho fun i _ _ ho =>
    ⟨ArrayObject.getScalar_blind ho.sound .int32 a i, ArrayObject.getScalar_behaves ho .int32 a i⟩

theorem phiParts_blind (ho : InOrder B h) (phi : Value) : Blind (phiParts phi) h := by
  unfold phiParts
  refine Blind.bind_ordered (Record.readRef_blind ho.sound phi 0) (Record.readRef_behaves ho phi 0) fun es _ ho => ?_
  refine Blind.bind_ordered (edges_blind ho es) (edges_behaves ho es) fun _ _ ho => ?_
  refine Blind.bind_ordered (Record.readRef_blind ho.sound phi 1) (Record.readRef_behaves ho phi 1) fun vs _ ho => ?_
  exact Blind.bind_all (optionalElements_blind ho vs) fun _ _ => .pure

theorem phiOperands_blind (ho : InOrder B h) (ts : NodeTypes) (phi : Value) : Blind (phiOperands ts phi) h :=
  expectKind_bind_blind ts .phi phi (Blind.bind_all (phiParts_blind ho phi) fun _ _ => .pure)

theorem phicValues_blind (ho : InOrder B h) (ts : NodeTypes) (phic : Value) : Blind (phicValues ts phic) h :=
  expectKind_bind_blind ts .phic phic
    (Blind.bind_ordered (Record.readRef_blind ho.sound phic 0) (Record.readRef_behaves ho phic 0) fun vs _ ho =>
      optionalElements_blind ho vs)

/-! ## Reading objects -/

theorem optionalField_blind (ho : InOrder B h) (v : Value) (i : Nat) : Blind (optionalField v i) h := by
  unfold optionalField
  refine Blind.bind_ordered (Record.isDefined_blind ho.sound v i) (Record.isDefined_behaves ho v i) fun b _ ho => ?_
  refine Blind.ite (fun _ => ?_) fun _ => .pure
  exact Blind.bind_all (Record.readRef_blind ho.sound v i) fun _ _ => .pure

theorem decodeAs_blind (ho : InOrder B h) (ts : NodeTypes) (v : Value) (kind : NodeKind) :
    Blind (decodeAs ts v kind) h := by
  have scalar {h : Heap} (ho : InOrder B h) (kind : ScalarKind) (i : Nat) {y : kind.Carrier → HeapM Node}
      (hy : ∀ x (h : Heap), InOrder B h → Blind (y x) h) : Blind (Record.readScalar kind v i >>= y) h :=
    Blind.bind_ordered (Record.readScalar_blind ho.sound kind v i) (Record.readScalar_behaves ho kind v i) hy
  have ref {h : Heap} (ho : InOrder B h) (i : Nat) {y : Value → HeapM Node}
      (hy : ∀ x (h : Heap), InOrder B h → Blind (y x) h) : Blind (Record.readRef v i >>= y) h :=
    Blind.bind_ordered (Record.readRef_blind ho.sound v i) (Record.readRef_behaves ho v i) hy
  cases kind with
  | goto => exact scalar ho .int64 0 fun _ _ _ => .pure
  | line => exact scalar ho .int64 0 fun _ _ ho => scalar ho .symbol 1 fun _ _ _ => .pure
  | quote => exact ref ho 0 fun _ _ _ => .pure
  | slot => exact scalar ho .int64 0 fun _ _ _ => .pure
  | typedSlot => exact scalar ho .int64 0 fun _ _ ho => scalar ho .dataType 1 fun _ _ _ => .pure
  | global => exact ref ho 0 fun _ _ ho => scalar ho .symbol 1 fun _ _ _ => .pure
  | phi => exact Blind.bind_all (phiParts_blind ho v) fun _ _ => .pure
  | phic => exact Blind.bind_all (phicValues_blind ho ts v) fun _ _ => .pure
  | upsilon => exact Blind.bind_all (optionalField_blind ho v 0) fun _ _ => .pure
  | pi => exact ref ho 0 fun _ _ ho => scalar ho .dataType 1 fun _ _ _ => .pure
  | newvar => exact ref ho 0 fun _ _ _ => .pure
  | ssa => exact scalar ho .int64 0 fun _ _ _ => .pure
  | expr =>
    refine Blind.bind_ordered (argumentCount_blind ho ts v) (argumentCount_behaves ho ts v) fun n _ ho => ?_
    refine Blind.bind_ordered (head_blind ho.sound ts v) (head_behaves ho ts v) fun _ _ ho => ?_
    exact Blind.bind_all (firstArguments_blind ho ts v n) fun _ _ => .pure

theorem decode_blind (ho : InOrder B h) (ts : NodeTypes) (v : Value) : Blind (decode ts v) h := by
  refine Blind.look_bind (fun _ hk => kindOf_eq hk ts v) fun kind _ => ?_
  cases kind with
  | some kind => exact decodeAs_blind ho ts v kind
  | none => exact .pure

/-! ## Walks -/

theorem argumentsBefore_blind (ho : InOrder B h) (ts : NodeTypes) (e : Value) (count : Nat) (rest : List Value) :
    Blind (argumentsBefore ts e count rest) h := by
  induction count generalizing h rest with
  | zero => exact .pure
  | succ count ih =>
    exact Blind.bind_ordered (argument_blind ho ts e count) (argument_behaves ho ts e count) fun x _ ho =>
      ih ho (x :: rest)

theorem after_blind (ho : InOrder B h) (ts : NodeTypes) (v : Value) (rest : List Value) :
    Blind (after ts v rest) h := by
  unfold after
  refine Blind.look_bind (fun _ hk => kindOf_eq hk ts v) fun kind _ => ?_
  split
  · exact Blind.bind_ordered (argumentCount_blind ho ts v) (argumentCount_behaves ho ts v) fun n _ ho =>
      argumentsBefore_blind ho ts v n rest
  · exact .pure

theorem walkFrom_blind (ho : InOrder B h) (ts : NodeTypes) (steps : Nat) (seen pending : List Value) :
    Blind (walkFrom ts steps seen pending) h := by
  induction steps generalizing h seen pending with
  | zero =>
    rw [walkFrom.eq_def]
    dsimp only
    cases pending.dropWhile (seen.contains ·) <;> exact .pure
  | succ steps ih =>
    rw [walkFrom.eq_def]
    dsimp only
    cases pending.dropWhile (seen.contains ·) with
    | nil => exact .pure
    | cons v rest =>
      refine Blind.attempt_bind (after_blind ho ts v rest) (after_behaves ho ts v rest) fun r _ ho => ?_
      cases r with
      | ok next => exact ih ho (v :: seen) next
      | error e => exact .pure

theorem walk_blind (ho : InOrder B h) (ts : NodeTypes) (root : Value) : Blind (walk ts root) h :=
  Blind.get_bind (fun _ hk => by rw [hk.objects]) (walkFrom_blind ho ts _ [] [root])

theorem visit_blind (ho : InOrder B h) (ts : NodeTypes) (root : Value) : Blind (visit ts root) h := by
  unfold visit
  exact Blind.bind_all (walk_blind ho ts root) fun w _ => Blind.lift_bind fun _ _ => .pure

end Nodes

/-! ## Making objects -/

namespace Node

theorem fillDefinedFrom_blind (ho : InOrder B h) (a : Value) (i : Nat) (xs : List (Option Value)) :
    Blind (fillDefinedFrom a i xs) h := by
  induction xs generalizing h i with
  | nil => exact .pure
  | cons x xs ih =>
    cases x with
    | none => exact ih ho (i + 1)
    | some x =>
      exact Blind.bind_ordered (ArrayObject.set_blind ho a i x) (ArrayObject.set_behaves ho a i x) fun _ _ ho =>
        ih ho (i + 1)

theorem fillFrom_blind (ho : InOrder B h) (a : Value) (i : Nat) (xs : List Value) : Blind (fillFrom a i xs) h := by
  rw [fillFrom_eq]
  exact fillDefinedFrom_blind ho a i _

theorem fillEdgesFrom_blind (ho : InOrder B h) (a : Value) (i : Nat) (ns : List Int32) :
    Blind (fillEdgesFrom a i ns) h := by
  induction ns generalizing h i with
  | nil => exact .pure
  | cons n ns ih =>
    exact Blind.bind_ordered (ArrayObject.setScalar_blind ho a i .int32 n)
      (ArrayObject.setScalar_behaves ho a i .int32 n) fun _ _ ho => ih ho (i + 1)

theorem optionalVector_blind (ho : InOrder B h) (values : List (Option Value)) : Blind (optionalVector values) h :=
  Blind.bind_ordered (ArrayObject.new_blind Builtin.any _) (ArrayObject.newVector_behaves ho Builtin.any _)
    fun a _ ho => Blind.bind_all (fillDefinedFrom_blind ho a 0 values) fun _ _ => .pure

theorem edgeVector_blind (ho : InOrder B h) (edges : List Int32) : Blind (edgeVector edges) h :=
  Blind.bind_ordered (ArrayObject.new_blind Builtin.int32 _) (ArrayObject.newVector_behaves ho Builtin.int32 _)
    fun a _ ho => Blind.bind_all (fillEdgesFrom_blind ho a 0 edges) fun _ _ => .pure

theorem encodeNumber_blind (ho : InOrder B h) (t : TypeRef) (n : Int64) : Blind (encodeNumber t n) h :=
  Blind.bind_ordered (Box.new_blind .int64 n) (Box.new_behaves ho .int64 n) fun v _ ho => Record.new_blind ho t [v]

theorem encode_blind (ho : InOrder B h) (ts : NodeTypes) (n : Node) : Blind (encode ts n) h := by
  have box {h : Heap} (ho : InOrder B h) (kind : ScalarKind) (x : kind.Carrier) {y : Value → HeapM Value}
      (hy : ∀ v (h : Heap), InOrder B h → Blind (y v) h) : Blind (Box.new kind x >>= y) h :=
    Blind.bind_ordered (Box.new_blind kind x) (Box.new_behaves ho kind x) hy
  have typeBox {h : Heap} (ho : InOrder B h) (t : TypeRef) {y : Value → HeapM Value}
      (hy : ∀ v (h : Heap), InOrder B h → Blind (y v) h) : Blind (Box.newType t >>= y) h :=
    Blind.bind_ordered (Box.newType_blind t) (Box.newType_behaves ho t) hy
  have optionals {h : Heap} (ho : InOrder B h) (xs : List (Option Value)) {y : Value → HeapM Value}
      (hy : ∀ v (h : Heap), InOrder B h → Blind (y v) h) : Blind (optionalVector xs >>= y) h :=
    Blind.bind_ordered (optionalVector_blind ho xs) (optionalVector_behaves ho xs) hy
  cases n with
  | goto label => exact encodeNumber_blind ho ts.goto label
  | line number file =>
    exact box ho .int64 number fun l _ ho => box ho .symbol file fun f _ ho => Record.new_blind ho ts.line [l, f]
  | quote v => exact Record.new_blind ho ts.quote [v]
  | slot index declared =>
    cases declared with
    | none => exact encodeNumber_blind ho ts.slot index
    | some t =>
      exact box ho .int64 index fun i _ ho => typeBox ho t fun t' _ ho => Record.new_blind ho ts.typedSlot [i, t']
  | global home name => exact box ho .symbol name fun n _ ho => Record.new_blind ho ts.global [home, n]
  | phi edges values =>
    refine Blind.guard fun _ => ?_
    refine Blind.bind_ordered (edgeVector_blind ho edges) (edgeVector_behaves ho edges) fun es _ ho => ?_
    exact optionals ho values fun vs _ ho => Record.new_blind ho ts.phi [es, vs]
  | phic values => exact optionals ho values fun vs _ ho => Record.new_blind ho ts.phic [vs]
  | upsilon value =>
    cases value with
    | some v => exact Record.new_blind ho ts.upsilon [v]
    | none => exact Record.newUninit_blind ts.upsilon
  | pi v t => exact typeBox ho t fun t' _ ho => Record.new_blind ho ts.pi [v, t']
  | newvar s => exact Record.new_blind ho ts.newvar [s]
  | ssa id => exact encodeNumber_blind ho ts.ssa id
  | expr head args =>
    refine Blind.bind_ordered (ArrayObject.new_blind Builtin.any _)
      (ArrayObject.newVector_behaves ho Builtin.any args.length) fun a _ ho => ?_
    refine Blind.bind_ordered (fillFrom_blind ho a 0 args) (fillFrom_behaves ho a 0 args) fun _ _ ho => ?_
    exact box ho .symbol head fun s _ ho => Record.new_blind ho ts.expr [s, a]
  | literal v => exact .pure

end Node

end TypedHeap
