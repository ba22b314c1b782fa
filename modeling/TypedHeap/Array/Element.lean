import TypedHeap.Array.Basic

/-!
# Elements of arrays

Elements are numbered from zero in column-major order. A slot holds a reference or the bits of a
value; a slot of a union's elements has a selector byte that says which member's bits it holds.

* `ArrayObject.get`, `getValue`, `getScalar`: reading an element.
* `ArrayObject.set`, `setScalar`: changing an element.
* `ArrayObject.linearIndex`: the number of the element at a position in several dimensions.
* `ElementPointer`, `ArrayObject.data`, `isCurrent`: where the elements lie, until the array moves.
-/

namespace TypedHeap

namespace ArrayInfo

/-- Elements are counted against the length. -/
def checkIndex (a : ArrayInfo) (i : Nat) : Except Error Unit :=
  if i < a.length then .ok () else .error (.indexOutOfRange .element i a.length)

/-- The bytes in front of a slot. -/
def slotOffset (a : ArrayInfo) (i : Nat) : Nat := i * a.flags.slotSize

/-- The bytes in front of a selector byte: all slots, used or not, and the selectors before it. -/
def selectorOffset (a : ArrayInfo) (i : Nat) : Nat := a.capacity * a.flags.slotSize + i

end ArrayInfo

namespace ArrayObject

/-- The types that selector bytes count. -/
def members (h : Heap) (a : ArrayInfo) : Except Error (List TypeRef) := do
  let d ← h.types.descriptor a.elem
  return d.memberTypes

/-- The selector byte for elements of type `t`. -/
def selectorOf (h : Heap) (a : ArrayInfo) (t : TypeRef) : Except Error UInt8 := do
  match (← members h a).idxOf? t with
  | some k => return UInt8.ofNat k
  | none => throw (h.types.mismatch a.elem t)

/-! ## Reading -/

/-- The type that the selector byte at an offset stands for. -/
def selected (h : Heap) (a : ArrayInfo) (off : Nat) : Except Error TypeRef := do
  let k := LittleEndian.ofBytes (← h.bytes off 1)
  match (← members h a)[k]? with
  | some t => return t
  | none => throw (.invalidTag off .badSelector)

/-- What an array holds at an index. -/
def get (a : Value) (i : Nat) : HeapM Datum := do
  let f ← Action.look (info · a)
  f.checkIndex i
  let start ← Action.look (Buffer.start · f.buffer)
  let slot := start + f.slotOffset i
  match f.flags.storage with
  | .references =>
    match ← Action.look (·.readRef slot) with
    | some x => return .ref x
    | none => throw (.undefined ("array element " ++ toString i))
  | .flat => return .bits f.elem (← Action.look (·.bytes slot f.flags.slotSize))
  | .selected =>
    let t ← Action.look (selected · f (start + f.selectorOffset i))
    let size ← Heap.sizeOf t
    return .bits t (← Action.look (·.bytes slot size))

/-- The value of the element at an index. Bits are copied into a new box. -/
def getValue (a : Value) (i : Nat) : HeapM Value := do
  match ← get a i with
  | .ref x => return x
  | .bits t bytes =>
    let f ← Action.look (info · a)
    let start ← Action.look (Buffer.start · f.buffer)
    let box ← Heap.allocate t 0
    Heap.copyBytes (start + f.slotOffset i) bytes.length box.offset
    return box

/-- The scalar at an index. -/
def getScalar (k : ScalarKind) (a : Value) (i : Nat) : HeapM k.Carrier := do
  let d ← get a i
  Action.look fun h => d.read k h

/-! ## Changing -/

/-- Change the element at an index to a value, which must be of the element type. -/
def set (a : Value) (i : Nat) (x : Value) : HeapM Unit := do
  let f ← Action.look (info · a)
  f.checkIndex i
  let xt ← Action.look (·.typeOf x)
  let start ← Action.look (Buffer.start · f.buffer)
  let slot := start + f.slotOffset i
  match f.flags.storage with
  | .references =>
    let fits ← Action.look (·.types.isa xt f.elem)
    if !fits then Action.look fun h => throw (h.types.mismatch f.elem xt)
    Heap.storeRef f.buffer slot x
  | .flat =>
    if xt ≠ f.elem then Action.look fun h => throw (h.types.mismatch f.elem xt)
    Heap.copyBytes x.offset f.flags.slotSize slot
  | .selected =>
    let selector ← Action.look (selectorOf · f xt)
    let size ← Heap.sizeOf xt
    Heap.copyBytes x.offset size slot
    Heap.clearBytes (slot + size) (f.flags.slotSize - size)
    Heap.writeBytes (start + f.selectorOffset i) [selector]

/-- Change the element at an index to a scalar, which is boxed only if the array holds references. -/
def setScalar (a : Value) (i : Nat) (k : ScalarKind) (x : k.Carrier) : HeapM Unit := do
  let f ← Action.look (info · a)
  f.checkIndex i
  let start ← Action.look (Buffer.start · f.buffer)
  let slot := start + f.slotOffset i
  match f.flags.storage with
  | .references =>
    let box ← Box.new k x
    set a i box
  | .flat =>
    if f.elem ≠ k.type then Action.look fun h => throw (h.types.mismatch f.elem k.type)
    Heap.storeScalar slot k x
  | .selected =>
    let selector ← Action.look (selectorOf · f k.type)
    let bs ← Heap.encode k x
    Heap.clearBytes slot f.flags.slotSize
    Heap.writeBytes slot bs
    Heap.writeBytes (start + f.selectorOffset i) [selector]

/-! ## Positions -/

/-- The number of the element at a position, the first dimension varying fastest. `stride` is how far
apart neighbours in the first of the given dimensions are. -/
def linearFrom (stride : Nat) : List (Nat × Nat) → Except Error Nat
  | [] => .ok 0
  | (i, d) :: rest => do
    if d ≤ i then throw (.indexOutOfRange .dimension i d)
    return i * stride + (← linearFrom (stride * d) rest)

/-- The number of the element at a position. -/
def linearIndex (h : Heap) (a : Value) (position : List Nat) : Except Error Nat := do
  let ds ← dims h a
  if position.length ≠ ds.length then
    throw (.invalidArgument (toString position.length ++ "-dimensional index into a " ++
      toString ds.length ++ "-dimensional array"))
  linearFrom 1 (position.zip ds)

/-! ## Where the elements lie -/

/-- A place inside an array's buffer. It means something only as long as the array keeps the buffer. -/
structure ElementPointer where
  buffer : Value
  offset : Nat
  deriving DecidableEq

/-- Where the first element lies. -/
def data (h : Heap) (a : Value) : Except Error ElementPointer := do
  let i ← info h a
  return ⟨i.buffer, ← Buffer.start h i.buffer⟩

/-- Whether the elements of an array still lie in the buffer of a pointer. -/
def isCurrent (h : Heap) (a : Value) (p : ElementPointer) : Except Error Bool :=
  return (← info h a).buffer = p.buffer

end ArrayObject

end TypedHeap
