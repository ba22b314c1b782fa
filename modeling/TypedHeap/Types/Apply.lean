import TypedHeap.Types.Table

/-!
# Applying families

Applying a family to parameters gives the one instance that stands for this pair; it is made the
first time and found again later. Applying `Union` normalises: nested unions are opened, repeated
members dropped, the rest sorted by name.

* `TypeTable.apply`: any family.
* `TypeTable.union`, `tupleType`, `arrayType`: the builtin families.
-/

namespace TypedHeap.TypeTable

/-- The largest number of dimensions an array type may have. -/
def maxRank : Nat := 65535

/-! ## Checking parameters -/

/-- Every parameter that is a type must be registered. -/
def checkRegistered (tt : TypeTable) (ps : Params) : Except Error Unit :=
  ps.types.forM fun t => do let _ ← tt.descriptor t

/-- The parameters of an array type are an element type and a number of dimensions. -/
def checkArrayParams (f : Family) (ps : Params) : Except Error Unit :=
  match ps with
  | [.type _, .int n] => if 0 ≤ n.toInt ∧ n.toInt ≤ maxRank then .ok () else refuse
  | _ => refuse
where
  refuse : Except Error Unit :=
    .error (.invalidArgument (f.name.text ++ " expects \x7bType, rank\x7d, got " ++ ps.debug))

/-- The parameters of a tuple type are its field types. -/
def checkTupleParams (ps : Params) : Except Error Unit :=
  if ps.all (·.type?.isSome) then .ok ()
  else .error (.invalidArgument "Tuple parameters must be types")

/-- A parameter that a field takes its type from must be a type. -/
def checkFieldParams (f : Family) (ps : Params) : Except Error Unit :=
  f.fields.forM fun (name, spec) =>
    match spec with
    | .type _ => .ok ()
    | .param i => do
      let p ← ps.get i
      if p.type?.isSome then return ()
      throw (.invalidArgument
        (f.name.text ++ "." ++ name.text ++ " needs a type for parameter " ++ toString i))

/-- Whether a family can be applied to these parameters. -/
def checkParams (tt : TypeTable) (f : Family) (ps : Params) : Except Error Unit := do
  if !f.variadic && ps.length != f.params.length then
    throw (.invalidArgument (f.name.text ++ " expects " ++ toString f.params.length ++
      " parameters, got " ++ toString ps.length))
  tt.checkRegistered ps
  match f.kind with
  | .array => checkArrayParams f ps
  | .tuple => checkTupleParams ps
  | .struct => checkFieldParams f ps
  | _ => return ()

/-! ## Instances -/

/-- The instance of a family with these parameters, made now if it does not exist. -/
def obtain (f : Family) (ps : Params) : Action TypeTable TypeRef := do
  match (← get).instance? f.name ps with
  | some t => return t
  | none =>
    let t ← Action.look nextRef
    modify fun tt => tt.addInstance t f ps
    return t

/-! ## Unions -/

/-- A union member with the text it is sorted by. -/
structure Member where
  text : String
  ref : TypeRef
  deriving DecidableEq

/-- Members are sorted by text, and by number where texts agree. -/
def Member.before (a b : Member) : Bool :=
  a.text < b.text || (a.text == b.text && a.ref.index < b.ref.index)

/-- Put a member in its place among sorted ones, unless it is there already. -/
def insertMember (m : Member) : List Member → List Member
  | [] => [m]
  | n :: ns =>
    if m.ref = n.ref then n :: ns
    else if m.before n then m :: n :: ns
    else n :: insertMember m ns

/-- The types in a list of members once nested unions are opened. -/
def atoms (tt : TypeTable) : List TypeRef → Except Error (List TypeRef)
  | [] => .ok []
  | m :: ms => do
    let d ← tt.descriptor m
    let rest ← tt.atoms ms
    return (if d.kind = .union then d.memberTypes else [m]) ++ rest

/-- Members with their texts. -/
def withTexts (tt : TypeTable) (ts : List TypeRef) : Except Error (List Member) :=
  ts.mapM fun t => return ⟨← tt.render t, t⟩

/-- The union of some types. It is `Any` if one of them is, and a single remaining member itself. -/
def union (members : List TypeRef) : Action TypeTable TypeRef := do
  let flat ← Action.look (·.atoms members)
  if flat.contains Builtin.any then return Builtin.any
  let keyed ← Action.look (·.withTexts flat)
  match keyed.foldr insertMember [] with
  | [only] => return only.ref
  | sorted =>
    match (← get).family? "Union" with
    | some f => obtain f (Params.ofTypes (sorted.map Member.ref))
    | none => throw (.undefined "type Union")

/-! ## Application -/

/-- The types in a parameter list for `Union`, which takes nothing else. -/
def unionMembers (ps : Params) : Except Error (List TypeRef) :=
  ps.mapM fun p =>
    match p.type? with
    | some t => .ok t
    | none => .error (.invalidArgument "Union members must be types")

/-- The instance of the family `name` with parameters `ps`. -/
def apply (name : Symbol) (ps : Params) : Action TypeTable TypeRef := do
  match (← get).instance? name ps with
  | some t => return t
  | none =>
    match (← get).family? name with
    | none => throw (.undefined ("type " ++ name.text))
    | some f =>
      if f.kind = .union then
        union (← unionMembers ps)
      else
        Action.look (·.checkParams f ps)
        obtain f ps

/-- The tuple type with the given field types. -/
def tupleType (fields : List TypeRef) : Action TypeTable TypeRef :=
  apply "Tuple" (Params.ofTypes fields)

/-- The type of arrays with the given element type and number of dimensions. -/
def arrayType (elem : TypeRef) (ndims : Nat) : Action TypeTable TypeRef :=
  apply "Array" [.type elem, .int (Int64.ofNat ndims)]

end TypedHeap.TypeTable
