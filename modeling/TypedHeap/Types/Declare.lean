import TypedHeap.Types.Apply

/-!
# Declaring families

A declaration is checked and then becomes a family. A family without parameters gets its only
instance at once.

* `TypeTable.validate`: what a declaration must satisfy.
* `TypeTable.declare`: a new family; its name must be free.
* `TypeTable.declareOrFind`: the same, unless an identical declaration was made before.
* `TypeTable.define`: declare or find, and give the instance.
-/

namespace TypedHeap.TypeTable

/-! ## Checking declarations -/

/-- The first name in a list that stands in `seen` or earlier in the list. -/
def firstRepeat (seen : List Symbol) : List Symbol → Option Symbol
  | [] => none
  | s :: rest => if s ∈ seen then some s else firstRepeat (s :: seen) rest

/-- The alignments that bits may have. -/
def alignments : List Nat := [1, 2, 4, 8, 16]

/-- The error about a declaration, with the declared name in front. -/
def refusal (d : Declaration) (text : String) : Error :=
  .invalidDefinition (d.name.text ++ ": " ++ text)

/-- Rules on the kind: bits have a size and a sensible alignment, abstract types have no fields, and
only structs are mutable. -/
def validateKind (d : Declaration) : Except Error Unit := do
  match d.kind with
  | .struct => pure ()
  | .primitive size align =>
    if size = 0 ∨ align.toNat ∉ alignments then
      throw (refusal d ("bad primitive size " ++ toString size ++ " / alignment " ++ toString align))
  | .abstract =>
    if !d.fields.isEmpty then throw (refusal d "only structs declare fields")
  if d.isMutable && d.kind != .struct then throw (refusal d "only structs can be mutable")

/-- Rules on the fields: names differ, types are registered, and parameters exist. -/
def validateFields (tt : TypeTable) (d : Declaration) (seen : List Symbol) :
    List (Symbol × FieldSpec) → Except Error Unit
  | [] => .ok ()
  | (name, spec) :: rest => do
    if name ∈ seen then throw (refusal d ("duplicate field " ++ name.text))
    match spec with
    | .type t => let _ ← tt.descriptor t
    | .param i =>
      if d.params.length ≤ i then
        throw (refusal d ("field " ++ name.text ++ " refers to parameter " ++ toString i ++ ", only " ++
          toString d.params.length ++ " declared"))
    tt.validateFields d (name :: seen) rest

/-- Whether a declaration obeys the rules. -/
def validate (tt : TypeTable) (d : Declaration) : Except Error Unit := do
  match firstRepeat [] d.params with
  | some p => throw (refusal d ("duplicate type parameter " ++ p.text))
  | none => pure ()
  validateKind d
  tt.validateFields d [] d.fields
  let sup ← tt.descriptor d.supertype
  if !sup.family.isAbstract then
    throw (refusal d ("supertype " ++ (← tt.render d.supertype) ++ " is not abstract"))

/-! ## Declaring -/

/-- Register a new family, and its only instance if it takes no parameters. -/
def declare (d : Declaration) : Action TypeTable Family := do
  Action.look (·.validate d)
  let f := d.family
  if ((← get).family? d.name).isSome then
    throw (.invalidDefinition ("type " ++ d.name.text ++ " is already declared"))
  modify (·.addFamily f)
  if d.params.isEmpty then
    let t ← Action.look nextRef
    modify (·.addInstance t f [])
  return f

/-- The family that an identical declaration gave before, or a new one. -/
def declareOrFind (d : Declaration) : Action TypeTable Family := do
  match (← get).family? d.name with
  | some f =>
    if f.matches d then return f
    else throw (.invalidDefinition
      ("type " ++ d.name.text ++ " is already declared with a different shape"))
  | none =>
    tryCatch (declare d) fun e => do
      match (← get).family? d.name with
      | some f => if f.matches d then return f else throw e
      | none => throw e

/-- The instance of a family without parameters, which is declared if it was not before. -/
def define (d : Declaration) : Action TypeTable TypeRef := do
  if !d.params.isEmpty then
    throw (.invalidArgument
      (d.name.text ++ " has type parameters; declare it and apply it instead"))
  let _ ← declareOrFind d
  apply d.name []

end TypedHeap.TypeTable
