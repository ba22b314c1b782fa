import TypedHeap.Array.Flags
import TypedHeap.Object.Box
import TypedHeap.Object.Text

/-!
# Arrays

The payload of an array holds its buffer, its length, the flags word, its capacity, its dimensions and
its owner, a word each. The elements lie in the buffer, in column-major order; the owner is the object
that keeps the buffer alive.

* `ArrayObject.elementStorage`: how elements of a type are stored.
* `ArrayObject.new`, `ArrayObject.newVector`: arrays of zero bits or without references.
* `ArrayInfo`, `ArrayObject.info`: the fixed part of an array, decoded.
* `ArrayObject.length`, `dims`, `owner`, …: questions that need no element.
-/

namespace TypedHeap

/-- The fixed part of an array. -/
structure ArrayInfo where
  elem : TypeRef
  flags : ArrayFlags
  length : Nat
  /-- How many elements the buffer has room for. -/
  capacity : Nat
  buffer : Value
  deriving DecidableEq

namespace ArrayObject

/-! ## Offsets in the payload -/

def bufferWord : Nat := 0

def lengthWord : Nat := 8

def flagsWord : Nat := 16

def capacityWord : Nat := 24

/-- The offset of a dimension. -/
def dimWord (k : Nat) : Nat := 32 + refSize * k

/-! ## How elements are stored -/

/-- The bytes of the widest of some types, if all of them are stored inline. -/
def widest : List TypeRef → HeapM (Option Nat)
  | [] => return some 0
  | t :: ts => do
    if ← Heap.isInline t then
      let size ← Heap.sizeOf t
      return (← widest ts).map (max size)
    else
      return none

/-- Union elements are stored in place when there are few enough members for a selector byte. -/
def maxMembers : Nat := 255

/-- The bytes of a slot for a union's elements, if they are stored in place. -/
def unionSlot (members : List TypeRef) : HeapM (Option Nat) := do
  match ← widest members with
  | some width =>
    if members ≠ [] ∧ members.length ≤ maxMembers ∧ width < ArrayFlags.fieldLimit then
      return some width
    else
      return none
  | none => return none

/-- How elements of a type are stored, and the bytes of one slot. Elements that are too wide for the
flags word are stored as references. -/
def elementStorage (elem : TypeRef) : HeapM (ElementStorage × Nat) := do
  if ← Heap.isInline elem then
    let size ← Heap.sizeOf elem
    if size < ArrayFlags.fieldLimit then return (.flat, size)
  let d ← (← get).types.descriptor elem
  if d.kind = .union then
    match ← unionSlot d.memberTypes with
    | some width => return (.selected, width)
    | none => return (.references, refSize)
  return (.references, refSize)

/-- A number, if it fits in a word. -/
def inWord (n : Nat) : Option Nat := if n ≤ Heap.maxWord then some n else none

/-- The number of elements of an array with the given dimensions, multiplied from left to right. -/
def elementCount (dims : List Nat) : Option Nat := dims.foldlM (fun n d => inWord (n * d)) 1

/-- The bytes of a buffer with room for a number of elements. -/
def bufferSize (storage : ElementStorage) (slotSize capacity : Nat) : Option Nat := do
  let data ← inWord (capacity * slotSize)
  inWord (data + storage.selectorBytes capacity)

/-! ## Making arrays -/

/-- Write dimensions from number `k` on. -/
def writeDims (a : Value) (k : Nat) : List Nat → HeapM Unit
  | [] => return ()
  | d :: ds => do
    Heap.writeWord (a.offset + dimWord k) d
    writeDims a (k + 1) ds

/-- Write the whole payload of an array. -/
def writeAll (a : Value) (i : ArrayInfo) (dims : List Nat) (owner : Value) : HeapM Unit := do
  Heap.writeRef (a.offset + bufferWord) (some i.buffer)
  Heap.writeWord (a.offset + lengthWord) i.length
  Heap.writeWord (a.offset + flagsWord) i.flags.toWord
  Heap.writeWord (a.offset + capacityWord) i.capacity
  writeDims a 0 dims
  Heap.writeRef (a.offset + ownerOffset dims.length) (some owner)

/-- A new array of zero bits, or without references. -/
def new (elem : TypeRef) (dims : List Nat) : HeapM Value := do
  let tooLarge := Error.invalidArgument ("array dims " ++ toString dims ++ " overflow")
  let some length := elementCount dims | throw tooLarge
  let t ← Heap.onTypes (TypeTable.arrayType elem dims.length)
  let (storage, slotSize) ← elementStorage elem
  let some size := bufferSize storage slotSize length | throw tooLarge
  let buffer ← Buffer.new size
  let a ← Heap.allocate t dims.length
  let flags : ArrayFlags := { ndims := dims.length, storage, isShared := false, slotSize }
  writeAll a { elem, flags, length, capacity := length, buffer } dims buffer
  return a

/-- A new array of one dimension. -/
def newVector (elem : TypeRef) (length : Nat) : HeapM Value := new elem [length]

/-! ## Questions -/

/-- The fixed part of an array. -/
def info (h : Heap) (a : Value) : Except Error ArrayInfo := do
  let d ← h.descriptor a
  if d.kind ≠ .array then throw (.typeMismatch "Array" (← h.types.render d.ref))
  match (← d.params.get 0).type? with
  | none => throw (.invalidTag a.offset .noElementType)
  | some elem =>
    let word ← h.readWord (a.offset + flagsWord)
    match ← h.readRef (a.offset + bufferWord) with
    | none => throw (.invalidTag a.offset .noBuffer)
    | some buffer =>
      let length ← h.readWord (a.offset + lengthWord)
      let capacity ← h.readWord (a.offset + capacityWord)
      return { elem, flags := ArrayFlags.ofWord word, length, capacity, buffer }

/-- The number of elements. -/
def length (h : Heap) (a : Value) : Except Error Nat := return (← info h a).length

/-- The number of dimensions. -/
def ndims (h : Heap) (a : Value) : Except Error Nat := return (← info h a).flags.ndims

/-- The dimension of an array at an index. -/
def dim (h : Heap) (a : Value) (k : Nat) : Except Error Nat := do
  let n ← ndims h a
  if n ≤ k then throw (.indexOutOfRange .dimension k n)
  h.readWord (a.offset + dimWord k)

/-- All dimensions. -/
def dims (h : Heap) (a : Value) : Except Error (List Nat) := do
  let n ← ndims h a
  (List.range n).mapM fun k => h.readWord (a.offset + dimWord k)

/-- The type of the elements. -/
def elementType (h : Heap) (a : Value) : Except Error TypeRef := return (← info h a).elem

/-- How the elements are stored. -/
def storage (h : Heap) (a : Value) : Except Error ElementStorage :=
  return (← info h a).flags.storage

/-- Whether another array uses the same buffer. -/
def isShared (h : Heap) (a : Value) : Except Error Bool := return (← info h a).flags.isShared

/-- How many elements the buffer has room for. -/
def capacity (h : Heap) (a : Value) : Except Error Nat := return (← info h a).capacity

/-- The bytes of one slot. -/
def slotSize (h : Heap) (a : Value) : Except Error Nat := return (← info h a).flags.slotSize

/-- The object that keeps the buffer alive. -/
def owner (h : Heap) (a : Value) : Except Error Value := do
  let i ← info h a
  match ← h.readRef (a.offset + ownerOffset i.flags.ndims) with
  | some v => return v
  | none => throw (.invalidTag a.offset .noOwner)

end ArrayObject

end TypedHeap
