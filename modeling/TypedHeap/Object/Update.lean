import TypedHeap.Object.Nesting

/-!
# Changing fields, and making modules

Only the fields of mutable objects change. A field takes values of its declared type, and a module's
parent field takes no module that lies inside the module itself.

* `Record.write`, `Record.writeScalar`: change a field.
* `ModuleObject.new`: a new module.
-/

namespace TypedHeap

namespace Record

/-- The objects of a type must be mutable for one of their fields to change. -/
def checkMutable (h : Heap) (t : TypeRef) (f : FieldLayout) : Except Error Unit := do
  if !(← h.registry.isMutable t) then
    throw (.immutable ("field " ++ f.name.text ++ " of " ++ (← h.types.render t)))

/-- Set the field of a mutable object at an index. -/
def write (v : Value) (i : Nat) (x : Value) : HeapM Unit := do
  let t ← Action.look (·.typeOf v)
  let f ← fieldLayout v i
  Action.look fun h => checkMutable h t f
  if t = Builtin.moduleType then ModuleObject.checkParent v i x
  store v f x

/-- Set an inline field of a mutable object to a scalar. -/
def writeScalar (v : Value) (i : Nat) (k : ScalarKind) (x : k.Carrier) : HeapM Unit := do
  let t ← Action.look (·.typeOf v)
  let f ← fieldLayout v i
  Action.look fun h => checkMutable h t f
  if !f.isInline ∨ f.type ≠ k.type then throw ((← get).types.mismatch f.type k.type)
  let start ← place v f
  Heap.storeScalar start k x

end Record

/-- A new module inside `parent`, or a root. -/
def ModuleObject.new (name : Symbol) (parent : Option Value) : HeapM Value := do
  match parent with
  | some p => Action.look (·.expectType p Builtin.moduleType)
  | none => pure ()
  let m ← Record.newUninit Builtin.moduleType
  Record.writeScalar m nameField .symbol name
  Record.write m parentField (parent.getD m)
  return m

end TypedHeap
