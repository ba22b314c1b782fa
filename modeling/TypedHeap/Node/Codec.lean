import TypedHeap.Node.Expr

/-!
# Nodes and the objects that represent them

A `Node` is what a node object says, taken apart. `Node.encode` makes the object and `Nodes.decode`
reads it back. Objects of any other type are literals.

A phi-c node that is fed along exceptional paths gets its values from upsilon nodes; a pi node narrows
the type of a value.
-/

namespace TypedHeap

/-- What a node says. Values that are undefined are `none`. -/
inductive Node where
  /-- A jump to a labelled statement. -/
  | goto (label : Int64)
  /-- Statements that follow come from this line. -/
  | line (number : Int64) (file : Symbol)
  /-- A value that is taken as it is. -/
  | quote (value : Value)
  /-- A local variable, with the type that was inferred for it if there is one. -/
  | slot (index : Int64) (declared : Option TypeRef)
  /-- A binding of a module. -/
  | global (home : Value) (name : Symbol)
  /-- A join of values, each of which flows in along the edge with the same index. -/
  | phi (edges : List Int32) (values : List (Option Value))
  /-- A join of values that upsilon nodes feed. -/
  | phic (values : List (Option Value))
  /-- A value for a phi-c node. -/
  | upsilon (value : Option Value)
  /-- A value known to be of a type. -/
  | pi (value : Value) (type : TypeRef)
  /-- A local variable becomes undefined. -/
  | newvar (slot : Value)
  /-- The result of a statement. -/
  | ssa (id : Int64)
  /-- An operation with arguments. -/
  | expr (head : Symbol) (args : List Value)
  /-- An object that is no node. -/
  | literal (value : Value)
  deriving DecidableEq

namespace Node

/-- The kind of a node; literals have none. -/
def kind? : Node → Option NodeKind
  | .goto .. => some .goto
  | .line .. => some .line
  | .quote .. => some .quote
  | .slot _ none => some .slot
  | .slot _ (some _) => some .typedSlot
  | .global .. => some .global
  | .phi .. => some .phi
  | .phic .. => some .phic
  | .upsilon .. => some .upsilon
  | .pi .. => some .pi
  | .newvar .. => some .newvar
  | .ssa .. => some .ssa
  | .expr .. => some .expr
  | .literal .. => none

/-! ## Making objects -/

/-- Set the elements of an array from index `i` on. -/
def fillFrom (a : Value) (i : Nat) : List Value → HeapM Unit
  | [] => return ()
  | x :: xs => do
    ArrayObject.set a i x
    fillFrom a (i + 1) xs

/-- Set the elements of an array from index `i` on, and leave out those that are undefined. -/
def fillDefinedFrom (a : Value) (i : Nat) : List (Option Value) → HeapM Unit
  | [] => return ()
  | none :: xs => fillDefinedFrom a (i + 1) xs
  | some x :: xs => do
    ArrayObject.set a i x
    fillDefinedFrom a (i + 1) xs

/-- Elements all of which are defined are set alike. -/
theorem fillFrom_eq (a : Value) (i : Nat) (xs : List Value) : fillFrom a i xs = fillDefinedFrom a i (xs.map some) := by
  induction xs generalizing i with
  | nil => rfl
  | cons x xs ih => rw [fillFrom, ih, List.map_cons, fillDefinedFrom]

/-- Set the elements of an array from index `i` on to edge numbers. -/
def fillEdgesFrom (a : Value) (i : Nat) : List Int32 → HeapM Unit
  | [] => return ()
  | n :: ns => do
    ArrayObject.setScalar a i .int32 n
    fillEdgesFrom a (i + 1) ns

/-- A vector of references; a slot may be empty. -/
def optionalVector (values : List (Option Value)) : HeapM Value := do
  let a ← ArrayObject.newVector Builtin.any values.length
  fillDefinedFrom a 0 values
  return a

/-- A vector of edge numbers. -/
def edgeVector (edges : List Int32) : HeapM Value := do
  let a ← ArrayObject.newVector Builtin.int32 edges.length
  fillEdgesFrom a 0 edges
  return a

/-- A node whose only field is a number. -/
def encodeNumber (t : TypeRef) (n : Int64) : HeapM Value := do
  let box ← Box.new .int64 n
  Record.new t [box]

/-- The object for a node. -/
def encode (ts : NodeTypes) : Node → HeapM Value
  | .goto label => encodeNumber ts.goto label
  | .line number file => do
    let l ← Box.new .int64 number
    let f ← Box.new .symbol file
    Record.new ts.line [l, f]
  | .quote v => Record.new ts.quote [v]
  | .slot index none => encodeNumber ts.slot index
  | .slot index (some t) => do
    let i ← Box.new .int64 index
    let t' ← Box.newType t
    Record.new ts.typedSlot [i, t']
  | .global home name => do
    let n ← Box.new .symbol name
    Record.new ts.global [home, n]
  | .phi edges values => do
    if edges.length ≠ values.length then
      throw (.invalidArgument ("phi node with " ++ toString edges.length ++ " edges and " ++
        toString values.length ++ " values"))
    let es ← edgeVector edges
    let vs ← optionalVector values
    Record.new ts.phi [es, vs]
  | .phic values => do
    let vs ← optionalVector values
    Record.new ts.phic [vs]
  | .upsilon (some v) => Record.new ts.upsilon [v]
  | .upsilon none => Record.newUninit ts.upsilon
  | .pi v t => do
    let t' ← Box.newType t
    Record.new ts.pi [v, t']
  | .newvar s => Record.new ts.newvar [s]
  | .ssa id => encodeNumber ts.ssa id
  | .expr head args => do
    let a ← ArrayObject.newVector Builtin.any args.length
    fillFrom a 0 args
    let h ← Box.new .symbol head
    Record.new ts.expr [h, a]
  | .literal v => return v

end Node

namespace Nodes

/-! ## Reading objects -/

/-- The reference in a field, if it holds one. -/
def optionalField (v : Value) (i : Nat) : HeapM (Option Value) := do
  if ← Record.isDefined v i then return some (← Record.readRef v i)
  return none

/-- What a node object of a kind says. -/
def decodeAs (ts : NodeTypes) (v : Value) : NodeKind → HeapM Node
  | .goto => return .goto (← Record.readScalar .int64 v 0)
  | .line => return .line (← Record.readScalar .int64 v 0) (← Record.readScalar .symbol v 1)
  | .quote => return .quote (← Record.readRef v 0)
  | .slot => return .slot (← Record.readScalar .int64 v 0) none
  | .typedSlot =>
    return .slot (← Record.readScalar .int64 v 0) (some (← Record.readScalar .dataType v 1))
  | .global => return .global (← Record.readRef v 0) (← Record.readScalar .symbol v 1)
  | .phi => do
    let (es, vs) ← phiParts v
    return .phi es vs
  | .phic => return .phic (← phicValues ts v)
  | .upsilon => return .upsilon (← optionalField v 0)
  | .pi => return .pi (← Record.readRef v 0) (← Record.readScalar .dataType v 1)
  | .newvar => return .newvar (← Record.readRef v 0)
  | .ssa => return .ssa (← Record.readScalar .int64 v 0)
  | .expr => do
    let n ← argumentCount ts v
    return .expr (← head ts v) (← firstArguments ts v n)

/-- What an object says as a node. -/
def decode (ts : NodeTypes) (v : Value) : HeapM Node := do
  match ← Action.look (kindOf ts · v) with
  | some k => decodeAs ts v k
  | none => return .literal v

end Nodes

end TypedHeap
