import TypedHeap.Types.Builtin

/-!
# The type table

A `TypeTable` holds the registered descriptors by number, the declared families by name, and which
instance stands for a family name with given parameters. It only ever grows.

* `TypeTable.descriptor`, `contains`, `lookup`, `family?`, `instance?`: questions.
* `TypeTable.render`: a type as messages show it, such as `Array{Int8, 1}`.
* `TypeTable.isa`: whether a value of one type may stand where another type is asked for.
* `TypeTable.addInstance`: a new descriptor under the next number.
* `TypeTable.builtin`: the table that every registry starts with.
-/

namespace TypedHeap

/-- The registered descriptors, the declared families and the instances by family and parameters.
The two lists have their newest entry in front. -/
structure TypeTable where
  types : Array Descriptor
  families : List Family
  instances : List ((Symbol × Params) × TypeRef)
  deriving DecidableEq

namespace TypeTable

/-! ## Questions -/

/-- The descriptor behind a reference. -/
def descriptor (tt : TypeTable) (t : TypeRef) : Except Error Descriptor :=
  match tt.types[t.index - 1]? with
  | some d => .ok d
  | none => .error (.invalidTag t.addr .unregistered)

/-- Whether a reference was handed out. -/
def contains (tt : TypeTable) (t : TypeRef) : Bool := t.index ≤ tt.types.size

/-- The references handed out so far, in order. -/
def refs (tt : TypeTable) : List TypeRef := tt.types.toList.map Descriptor.ref

/-- The family of a name. -/
def family? (tt : TypeTable) (name : Symbol) : Option Family :=
  tt.families.find? (·.name == name)

/-- The instance of a family with given parameters, if it was made. -/
def instance? (tt : TypeTable) (name : Symbol) (ps : Params) : Option TypeRef :=
  tt.instances.lookup (name, ps)

/-- The instance of a family without parameters, if there is one. -/
def lookup (tt : TypeTable) (name : Symbol) : Option TypeRef := tt.instance? name []

/-! ## Rendering -/

/-- A type as messages show it, with parameters nested at most `depth` deep. -/
def renderWithin (tt : TypeTable) : Nat → TypeRef → Except Error String
  | 0, t => .error (.invalidTag t.addr .unregistered)
  | depth + 1, t => do
    let d ← tt.descriptor t
    if d.params.isEmpty && d.kind != .union then
      return d.name.text
    else
      let parts ← d.params.mapM fun p =>
        match p with
        | .type s => tt.renderWithin depth s
        | .int n => .ok (toString n.toInt)
        | .symbol s => .ok s.debug
        | .bool b => .ok (toString b)
      return d.name.text ++ "\x7b" ++ ", ".intercalate parts ++ "\x7d"

/-- A type as messages show it: its name, and its parameters in braces if it has any. Parameters
come before the types made from them, so a type nests at most as deep as its number. -/
def render (tt : TypeTable) (t : TypeRef) : Except Error String := tt.renderWithin t.index t

/-- A type as messages show it, or its bare reference if it is not registered. -/
def renderOrRef (tt : TypeTable) (t : TypeRef) : String :=
  match tt.render t with
  | .ok s => s
  | .error _ => t.debug

/-- The error that names an expected and an actual type. -/
def mismatch (tt : TypeTable) (expected got : TypeRef) : Error :=
  .typeMismatch (tt.renderOrRef expected) (tt.renderOrRef got)

/-! ## Subtyping

A type is below itself and below `Any`; a union is below what all of its members are below; below a
union is what is below one of its members; anything else is below what its chain of declared
supertypes reaches. -/

/-- Whether a chain of declared supertypes, followed for at most `steps` links, meets a type. -/
def chainMeets (tt : TypeTable) (declared : TypeRef) : Nat → Option TypeRef → Except Error Bool
  | _, none => .ok false
  | 0, some _ => .ok false
  | steps + 1, some s => do
    if s = declared then return true
    let d ← tt.descriptor s
    tt.chainMeets declared steps d.supertype

/-- The subtype test, with unions opened at most `depth` times. -/
def isaWithin (tt : TypeTable) : Nat → TypeRef → TypeRef → Except Error Bool
  | 0, _, _ => .ok false
  | depth + 1, t, declared => do
    if t = declared ∨ declared = Builtin.any then return true
    let sub ← tt.descriptor t
    if sub.kind = .union then
      return ← sub.memberTypes.allM fun m => tt.isaWithin depth m declared
    let sup ← tt.descriptor declared
    if sup.kind = .union then
      return ← sup.memberTypes.anyM fun m => tt.isaWithin depth t m
    tt.chainMeets declared t.index sub.supertype

/-- Whether `t` is below `declared`. Members and supertypes come before the types that mention them,
so every step lowers the sum of the two numbers, and the sum bounds the number of steps. -/
def isa (tt : TypeTable) (t declared : TypeRef) : Except Error Bool :=
  tt.isaWithin (t.index + declared.index) t declared

/-! ## Growth -/

/-- The reference that the next descriptor gets. -/
def nextRef (tt : TypeTable) : Except Error TypeRef :=
  match TypeRef.ofIndex? (tt.types.size + 1) with
  | some t => .ok t
  | none => .error (.invalidArgument "type registry is full")

/-- The table with one more descriptor. -/
def addInstance (tt : TypeTable) (t : TypeRef) (f : Family) (ps : Params) : TypeTable :=
  { tt with types := tt.types.push ⟨t, f, ps⟩, instances := ((f.name, ps), t) :: tt.instances }

/-- The table with one more family. -/
def addFamily (tt : TypeTable) (f : Family) : TypeTable :=
  { tt with families := f :: tt.families }

/-- A table with nothing in it. -/
def empty : TypeTable := ⟨#[], [], []⟩

/-- The table of the builtin types. -/
def builtin : TypeTable :=
  let single := (Builtin.all.zip Builtin.single).foldl
    (fun tt (t, f) => (tt.addFamily f).addInstance t f []) empty
  Builtin.applied.foldl addFamily single

end TypeTable

end TypedHeap
