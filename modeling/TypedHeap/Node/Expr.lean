import TypedHeap.Array.Shape
import TypedHeap.Node.Schema
import TypedHeap.Object.Update

/-!
# Expressions and joins

An expression node has a head, which says what it does, and a vector of arguments; both may change. A
phi node joins values that flow in along numbered edges, a phi-c node joins values without edges.

* `Nodes.kindOf`: the kind of node an object is, if it is one.
* `Nodes.head`, `argumentCount`, `argument`, `firstArguments`: parts of an expression.
* `Nodes.setHead`, `setArgument`, `pushArgument`: changing an expression.
* `Nodes.phiOperands`, `phicValues`: what a join joins.
-/

namespace TypedHeap.Nodes

/-! ## Kinds -/

/-- The kind of node an object is, if it is one. -/
def kindOf (ts : NodeTypes) (h : Heap) (v : Value) : Except Error (Option NodeKind) :=
  return ts.kindOf? (← h.typeOf v)

/-- An object must be a node of the given kind. -/
def expectKind (ts : NodeTypes) (k : NodeKind) (h : Heap) (v : Value) : Except Error Unit := do
  if (← kindOf ts h v) ≠ some k then
    throw (.typeMismatch (k.name ++ " node") (← h.types.render (← h.typeOf v)))

/-! ## Expressions -/

/-- The field that holds the head. -/
def headField : Nat := 0

/-- The field that holds the vector of arguments. -/
def argumentsField : Nat := 1

/-- The vector that holds the arguments of an expression. -/
def argumentVector (ts : NodeTypes) (e : Value) : HeapM Value := do
  Action.look (expectKind ts .expr · e)
  match (← Record.read e argumentsField).ref? with
  | some args => return args
  | none => throw (.undefined "expression arguments")

/-- The head of an expression. -/
def head (ts : NodeTypes) (e : Value) : HeapM Symbol := do
  Action.look (expectKind ts .expr · e)
  Record.readScalar .symbol e headField

/-- Change the head of an expression. -/
def setHead (ts : NodeTypes) (e : Value) (s : Symbol) : HeapM Unit := do
  Action.look (expectKind ts .expr · e)
  Record.writeScalar e headField .symbol s

/-- The number of arguments of an expression. -/
def argumentCount (ts : NodeTypes) (e : Value) : HeapM Nat := do
  let args ← argumentVector ts e
  Action.look (ArrayObject.length · args)

/-- The vector of arguments of an expression, which must have one with index `i`. -/
def vectorWith (ts : NodeTypes) (e : Value) (i : Nat) : HeapM Value := do
  let args ← argumentVector ts e
  let n ← Action.look (ArrayObject.length · args)
  if n ≤ i then throw (.indexOutOfRange .argument i n)
  return args

/-- The argument of an expression at an index. -/
def argument (ts : NodeTypes) (e : Value) (i : Nat) : HeapM Value := do
  let args ← vectorWith ts e i
  match (← ArrayObject.get args i).ref? with
  | some x => return x
  | none => throw (.undefined ("argument " ++ toString i))

/-- Change the argument of an expression at an index. -/
def setArgument (ts : NodeTypes) (e : Value) (i : Nat) (x : Value) : HeapM Unit := do
  let args ← vectorWith ts e i
  ArrayObject.set args i x

/-- Append an argument to an expression. -/
def pushArgument (ts : NodeTypes) (e : Value) (x : Value) : HeapM Unit := do
  let args ← argumentVector ts e
  ArrayObject.push args x

/-- The first `count` arguments of an expression. -/
def firstArguments (ts : NodeTypes) (e : Value) (count : Nat) : HeapM (List Value) :=
  (List.range count).mapM (argument ts e)

/-! ## Joins -/

/-- The reference in a vector at an index, if the slot holds one. -/
def optionalElement (a : Value) (i : Nat) : HeapM (Option Value) := do
  match ← (ArrayObject.get a i).attempt with
  | .ok d => return d.ref?
  | .error (.undefined _) => return none
  | .error e => throw e

/-- The references in a vector; a slot may be empty. -/
def optionalElements (a : Value) : HeapM (List (Option Value)) := do
  let n ← Action.look (ArrayObject.length · a)
  (List.range n).mapM (optionalElement a)

/-- The elements of a vector of edge numbers. -/
def edges (a : Value) : HeapM (List Int32) := do
  let n ← Action.look (ArrayObject.length · a)
  (List.range n).mapM fun i => ArrayObject.getScalar .int32 a i

/-- The edges of a phi node, and the values that flow in along them. -/
def phiParts (phi : Value) : HeapM (List Int32 × List (Option Value)) := do
  let es ← edges (← Record.readRef phi 0)
  let vs ← optionalElements (← Record.readRef phi 1)
  return (es, vs)

/-- The edges of a phi node, each with the value that flows in along it, if it is defined. -/
def phiOperands (ts : NodeTypes) (phi : Value) : HeapM (List (Int32 × Option Value)) := do
  Action.look (expectKind ts .phi · phi)
  let (es, vs) ← phiParts phi
  return es.zip vs

/-- The values that a phi-c node joins. -/
def phicValues (ts : NodeTypes) (phic : Value) : HeapM (List (Option Value)) := do
  Action.look (expectKind ts .phic · phic)
  optionalElements (← Record.readRef phic 0)

end TypedHeap.Nodes
