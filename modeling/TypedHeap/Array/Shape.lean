import TypedHeap.Array.Element

/-!
# Growing and reshaping arrays

An array of one dimension changes its length in place as long as its buffer has room; beyond that the
elements move to a new buffer, twice as large or larger, which becomes the owner. A reshaped array is
a second array over the same buffer. Both are marked as shared then, and neither moves any more.

Between its length and its capacity a buffer holds zeros, so fresh elements are zero bits or
undefined references.

* `ArrayObject.resize`, `push`: changing the length.
* `ArrayObject.reshape`: the same elements with other dimensions.
-/

namespace TypedHeap.ArrayObject

/-! ## Changing the length -/

/-- Clear the slots from `lo` up to `hi`, and their selectors. -/
def clearSlots (f : ArrayInfo) (lo hi : Nat) : HeapM Unit := do
  let start ← Action.look (Buffer.start · f.buffer)
  Heap.clearBytes (start + f.slotOffset lo) ((hi - lo) * f.flags.slotSize)
  if f.flags.storage = .selected then
    Heap.clearBytes (start + f.selectorOffset lo) (hi - lo)

/-- The capacity that an array grows to for `n` elements. -/
def grownCapacity (capacity n : Nat) : Nat := max n (min (capacity * 2) Heap.maxWord)

/-- Copy the slots in use, and their selectors, to a buffer of another capacity. -/
def moveSlots (f : ArrayInfo) (buffer : Value) (capacity : Nat) : HeapM Unit := do
  let old ← Action.look (Buffer.start · f.buffer)
  let new ← Action.look (Buffer.start · buffer)
  Heap.copyBytes old (f.length * f.flags.slotSize) new
  if f.flags.storage = .selected then
    Heap.copyBytes (old + f.selectorOffset 0) f.length
      (new + { f with capacity }.selectorOffset 0)

/-- Move the elements of an array of one dimension to a new buffer with room for `n` of them. -/
def grow (a : Value) (f : ArrayInfo) (n : Nat) : HeapM Unit := do
  let capacity := grownCapacity f.capacity n
  let some size := bufferSize f.flags.storage f.flags.slotSize capacity
    | throw (.invalidArgument ("cannot grow array to " ++ toString n))
  let buffer ← Buffer.new size
  moveSlots f buffer capacity
  Heap.writeRef (a.offset + bufferWord) (some buffer)
  Heap.writeRef (a.offset + ownerOffset 1) (some buffer)
  Heap.writeWord (a.offset + capacityWord) capacity
  Heap.writeBarrier a buffer

/-- Change the length of an array of one dimension. -/
def resize (a : Value) (n : Nat) : HeapM Unit := do
  let f ← Action.look (info · a)
  if f.flags.ndims ≠ 1 then
    throw (.invalidArgument ("cannot resize a " ++ toString f.flags.ndims ++ "-dimensional array"))
  if f.flags.isShared then
    throw (.invalidArgument "cannot resize an array whose buffer is shared")
  if n ≤ f.capacity then
    clearSlots f (min f.length n) (max f.length n)
  else
    grow a f n
  Heap.writeWord (a.offset + lengthWord) n
  Heap.writeWord (a.offset + dimWord 0) n

/-- Append a value to an array of one dimension. If the value does not fit, the length is restored. -/
def push (a : Value) (x : Value) : HeapM Unit := do
  let n ← Action.look (length · a)
  if n = Heap.maxWord then throw (.invalidArgument "array length overflow")
  resize a (n + 1)
  (set a n x).recover fun e => do
    resize a n
    throw e

/-! ## Changing the dimensions -/

/-- An array with other dimensions over the same buffer. -/
def reshape (a : Value) (dims : List Nat) : HeapM Value := do
  let f ← Action.look (info · a)
  if elementCount dims ≠ some f.length then
    throw (.invalidArgument ("cannot reshape " ++ toString f.length ++ " elements into " ++
      toString dims))
  let keeper ← Action.look (owner · a)
  let t ← Heap.onTypes (TypeTable.arrayType f.elem dims.length)
  let view ← Heap.allocate t dims.length
  let flags := { f.flags with ndims := dims.length, isShared := true }
  writeAll view { f with flags } dims keeper
  Heap.writeWord (a.offset + flagsWord) { f.flags with isShared := true }.toWord
  return view

end TypedHeap.ArrayObject
