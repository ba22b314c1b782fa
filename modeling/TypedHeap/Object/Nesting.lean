import TypedHeap.Object.Record

/-!
# How modules nest

A module is an object with a name and a parent. A module that is its own parent is a root; the others
lie inside their parents, and the names from the root down make up a module's path.

* `ModuleObject.name`, `parent`, `path`: questions.
* `ModuleObject.checkParent`: a module may not be put inside one of its own descendants.

Both the path and the check follow parents upwards. Modules never nest in a circle, so a chain is at
most as long as there are objects, and the number of objects bounds both walks.
-/

namespace TypedHeap.ModuleObject

/-- The field that holds the name. -/
def nameField : Nat := 0

/-- The field that holds the parent. -/
def parentField : Nat := 1

/-- The name of a module. -/
def name (m : Value) : HeapM Symbol := do
  Action.look (·.expectType m Builtin.moduleType)
  Record.readScalar .symbol m nameField

/-- The module that a module lies in; a root lies in itself. -/
def parent (m : Value) : HeapM Value := do
  Action.look (·.expectType m Builtin.moduleType)
  match (← Record.read m parentField).ref? with
  | some p => return p
  | none => throw (.undefined "module parent")

/-- A chain of parents that is longer than there are objects. -/
def endlessChain : Error := .invalidArgument "module parents do not end"

/-! ## Nesting -/

/-- Follow parents from `cur` on for at most `steps` steps; `m` may not be among them. -/
def checkAbove (m target : Value) : Nat → Value → HeapM Unit
  | 0, _ => throw endlessChain
  | steps + 1, cur => do
    if cur = m then
      let inner ← name m
      let outer ← name target
      throw (.invalidArgument ("module " ++ inner.text ++
        " cannot be nested inside its own descendant " ++ outer.text))
    let next ← parent cur
    if next = cur then return ()
    checkAbove m target steps next

/-- Whether field `i` of module `m` may be set to `p`. Making `m` its own parent turns it into a root
and is always allowed, and so is a parent that is no module. -/
def checkParent (m : Value) (i : Nat) (p : Value) : HeapM Unit := do
  if i = parentField ∧ p ≠ m then
    let t ← Action.look (·.typeOf p)
    if t = Builtin.moduleType then
      checkAbove m p ((← get).objects.length + 1) p

/-! ## Paths -/

/-- The names from the root down to the parent of `cur`, followed by the names in `below`. -/
def namesAbove (below : List Symbol) : Nat → Value → HeapM (List Symbol)
  | 0, _ => throw endlessChain
  | steps + 1, cur => do
    let p ← parent cur
    if p = cur then return below
    let n ← name p
    namesAbove (n :: below) steps p

/-- The path of a module: the names from the root down, joined by dots. -/
def path (m : Value) : HeapM String := do
  let n ← name m
  let names ← namesAbove [n] ((← get).objects.length + 1) m
  return ".".intercalate (names.map Symbol.text)

end TypedHeap.ModuleObject
