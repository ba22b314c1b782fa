import TypedHeap.Registry

/-!
# Node types

Programs are represented as nodes: objects of thirteen types, declared once in every registry that
nodes are made in. Nodes are read by field number, so the order and number of the fields belong to
what a node type is.

* `NodeKind`: the kinds of nodes, `NodeKind.declaration` their declarations.
* `NodeTypes.register`: declare the node types, or find them if they were declared before.
* `NodeTypes.ofKind`, `NodeTypes.kindOf?`: between kinds and types.
-/

namespace TypedHeap

/-- The kinds of nodes. -/
inductive NodeKind where
  | goto | line | quote | slot | typedSlot | global | phi | phic | upsilon | pi | newvar | ssa | expr
  deriving DecidableEq, Repr

namespace NodeKind

/-- Every kind once. -/
def all : List NodeKind :=
  [goto, line, quote, slot, typedSlot, global, phi, phic, upsilon, pi, newvar, ssa, expr]

/-- The name of a kind, as messages show it. -/
def name : NodeKind → String
  | .goto => "Goto"
  | .line => "Line"
  | .quote => "Quote"
  | .slot => "Slot"
  | .typedSlot => "TypedSlot"
  | .global => "Global"
  | .phi => "Phi"
  | .phic => "PhiC"
  | .upsilon => "Upsilon"
  | .pi => "Pi"
  | .newvar => "NewVar"
  | .ssa => "Ssa"
  | .expr => "Expr"

/-- The name of the type of a kind. -/
def typeName : NodeKind → Symbol
  | .goto => "GotoNode"
  | .line => "LineNumberNode"
  | .quote => "QuoteNode"
  | .slot => "SlotNumber"
  | .typedSlot => "TypedSlot"
  | .global => "GlobalRef"
  | .phi => "PhiNode"
  | .phic => "PhiCNode"
  | .upsilon => "UpsilonNode"
  | .pi => "PiNode"
  | .newvar => "NewvarNode"
  | .ssa => "SSAValue"
  | .expr => "Expr"

/-- The fields of a kind. References and edges of joins lie in vectors of the two given types. -/
def fields (anyVector int32Vector : TypeRef) : NodeKind → List (Symbol × TypeRef)
  | .goto => [("label", Builtin.int64)]
  | .line => [("line", Builtin.int64), ("file", Builtin.symbol)]
  | .quote => [("value", Builtin.any)]
  | .slot => [("id", Builtin.int64)]
  | .typedSlot => [("id", Builtin.int64), ("typ", Builtin.dataType)]
  | .global => [("mod", Builtin.moduleType), ("name", Builtin.symbol)]
  | .phi => [("edges", int32Vector), ("values", anyVector)]
  | .phic => [("values", anyVector)]
  | .upsilon => [("val", Builtin.any)]
  | .pi => [("val", Builtin.any), ("typ", Builtin.dataType)]
  | .newvar => [("slot", Builtin.any)]
  | .ssa => [("id", Builtin.int64)]
  | .expr => [("head", Builtin.symbol), ("args", anyVector)]

/-- The declaration of the type of a kind. Only expressions are mutable. -/
def declaration (anyVector int32Vector : TypeRef) (k : NodeKind) : Declaration where
  name := k.typeName
  home := "Core"
  kind := .struct
  isMutable := k == .expr
  fields := (k.fields anyVector int32Vector).map fun (name, t) => (name, .type t)

end NodeKind

/-- The types of the nodes of each kind, and of the vectors they use. -/
structure NodeTypes where
  goto : TypeRef
  line : TypeRef
  quote : TypeRef
  slot : TypeRef
  typedSlot : TypeRef
  global : TypeRef
  phi : TypeRef
  phic : TypeRef
  upsilon : TypeRef
  pi : TypeRef
  newvar : TypeRef
  ssa : TypeRef
  expr : TypeRef
  /-- Vectors of references to anything. -/
  anyVector : TypeRef
  int32Vector : TypeRef
  deriving DecidableEq

namespace NodeTypes

/-- The node types of a type table. A kind that was declared before must have had the same shape. -/
def register : Action TypeTable NodeTypes := do
  let anyVector ← TypeTable.arrayType Builtin.any 1
  let int32Vector ← TypeTable.arrayType Builtin.int32 1
  let define (k : NodeKind) := TypeTable.define (k.declaration anyVector int32Vector)
  let goto ← define .goto
  let line ← define .line
  let quote ← define .quote
  let slot ← define .slot
  let typedSlot ← define .typedSlot
  let global ← define .global
  let phi ← define .phi
  let phic ← define .phic
  let upsilon ← define .upsilon
  let pi ← define .pi
  let newvar ← define .newvar
  let ssa ← define .ssa
  let expr ← define .expr
  return { goto, line, quote, slot, typedSlot, global, phi, phic, upsilon, pi, newvar, ssa, expr
           anyVector, int32Vector }

/-- The type of nodes of a kind. -/
def ofKind (ts : NodeTypes) : NodeKind → TypeRef
  | .goto => ts.goto
  | .line => ts.line
  | .quote => ts.quote
  | .slot => ts.slot
  | .typedSlot => ts.typedSlot
  | .global => ts.global
  | .phi => ts.phi
  | .phic => ts.phic
  | .upsilon => ts.upsilon
  | .pi => ts.pi
  | .newvar => ts.newvar
  | .ssa => ts.ssa
  | .expr => ts.expr

/-- The kind of nodes of a type, if it is a node type. -/
def kindOf? (ts : NodeTypes) (t : TypeRef) : Option NodeKind :=
  NodeKind.all.find? fun k => ts.ofKind k == t

end NodeTypes

end TypedHeap
