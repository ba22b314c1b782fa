import TypedHeap.Object.Box

/-!
# Objects with fields

Structs and tuples have fields, which the layout of their type describes. A field holds either the
bits of a value or a reference to it.

* `Record.place`: where a field of an object lies in the heap.
* `Record.read`, `readByName`, `readValue`, `readScalar`, `isDefined`: reading a field.
* `Record.store`: put a value in a field, whether or not the object is mutable.
* `Record.new`, `Record.newUninit`: new objects, from values or empty.

Fields of mutable objects are changed by `Record.write`, which stands apart because it looks after
the nesting of modules.
-/

namespace TypedHeap.Record

/-! ## Reading -/

/-- Where the field of an object at an index lies. -/
def fieldLayout (v : Value) (i : Nat) : HeapM FieldLayout := do
  let t ← Action.look (·.typeOf v)
  let l ← Heap.layout t
  l.field i

/-- The number of fields of an object. -/
def fieldCount (v : Value) : HeapM Nat := do
  let t ← Action.look (·.typeOf v)
  return (← Heap.layout t).fields.length

/-- The type of an object as messages show it, or else the reference itself. -/
def ownerText (h : Heap) (v : Value) : String :=
  match h.typeOf v >>= h.types.render with
  | .ok s => s
  | .error _ => v.text

/-- Where a field of an object lies. -/
def place (v : Value) (f : FieldLayout) : Except Error Nat := Word.add v.offset f.offset

/-- The reference in a field that lies at an offset. -/
def refAt (h : Heap) (v : Value) (f : FieldLayout) (start : Nat) : Except Error Value := do
  match ← h.readRef start with
  | some x => return x
  | none => throw (.undefined ("field " ++ f.name.text ++ " of " ++ ownerText h v))

/-- What a field holds. -/
def datumAt (h : Heap) (v : Value) (f : FieldLayout) : Except Error Datum := do
  let start ← place v f
  if f.isInline then
    return .bits f.type (← h.bytes start f.size)
  else
    return .ref (← refAt h v f start)

/-- What the field at an index holds. -/
def read (v : Value) (i : Nat) : HeapM Datum := do
  let f ← fieldLayout v i
  Action.look fun h => datumAt h v f

/-- Whether the field at an index holds something; bits always do. -/
def isDefined (v : Value) (i : Nat) : HeapM Bool := do
  let f ← fieldLayout v i
  if f.isInline then return true
  let start ← place v f
  let x ← Action.look (·.readRef start)
  return x.isSome

/-- The value of the field at an index. Bits are copied into a new box. -/
def readValue (v : Value) (i : Nat) : HeapM Value := do
  let f ← fieldLayout v i
  let start ← place v f
  if f.isInline then
    let box ← Heap.allocate f.type 0
    Heap.copyBytes start f.size box.offset
    return box
  else
    Action.look fun h => refAt h v f start

/-- What the field with a given name holds. -/
def readByName (v : Value) (name : Symbol) : HeapM Datum := do
  let t ← Action.look (·.typeOf v)
  let i ← Heap.onRegistry (Registry.fieldIndex t name)
  read v i

/-- The scalar in the field at an index. -/
def readScalar (k : ScalarKind) (v : Value) (i : Nat) : HeapM k.Carrier := do
  let d ← read v i
  Action.look fun h => d.read k h

/-- The reference in the field at an index, which must not hold bits. -/
def readRef (v : Value) (i : Nat) : HeapM Value := do
  match (← read v i).ref? with
  | some x => return x
  | none => throw (.typeMismatch "reference field" "inline bits")

/-! ## Storing -/

/-- Store a value in a field, which must take values of its type. -/
def store (v : Value) (f : FieldLayout) (x : Value) : HeapM Unit := do
  let xt ← Action.look (·.typeOf x)
  let fits ← Action.look (·.types.isa xt f.type)
  if !fits then throw ((← get).types.mismatch f.type xt)
  let start ← place v f
  if f.isInline then
    Heap.copyBytes x.offset f.size start
  else
    Heap.storeRef v start x

/-- Store values in fields, pair by pair. -/
def storeAll (v : Value) : List (FieldLayout × Value) → HeapM Unit
  | [] => return ()
  | (f, x) :: rest => do
    store v f x
    storeAll v rest

/-! ## Making -/

/-- Only structs and tuples are made from fields. -/
def expectFields (h : Heap) (t : TypeRef) : Except Error Unit := do
  let d ← h.types.descriptor t
  match d.kind with
  | .struct | .tuple => return ()
  | _ => throw (.invalidArgument ((← h.types.render t) ++ " is not a struct type"))

/-- A new object with zero bits and no references. -/
def newUninit (t : TypeRef) : HeapM Value := do
  Action.look (expectFields · t)
  Heap.allocate t 0

/-- A new object with a value for each field. -/
def new (t : TypeRef) (args : List Value) : HeapM Value := do
  Action.look (expectFields · t)
  let l ← Heap.layout t
  if args.length ≠ l.fields.length then
    throw (.invalidArgument ((← (← get).types.render t) ++ " has " ++ toString l.fields.length ++
      " fields, got " ++ toString args.length ++ " values"))
  let v ← Heap.allocate t 0
  storeAll v (l.fields.zip args)
  return v

end TypedHeap.Record
