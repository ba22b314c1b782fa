import TypedHeap.Heap.Basic

/-!
# Allocation

A new object starts at the first offset past the last object that is a multiple of sixteen and leaves
room for its header word. The memory grows as needed, at least doubling, up to the heap's limit.

* `Heap.payloadSize`: how large an object of a type is, given its length, count or rank.
* `Heap.allocate`: a new object, all zero but for its header and its length.
-/

namespace TypedHeap.Heap

/-- Bytes of a header word. -/
def headerSize : Nat := 8

/-- Every payload starts at a multiple of this. -/
def payloadAlign : Nat := 16

/-- The largest number a word holds. -/
def maxWord : Nat := 0xffffffffffffffff

/-- A size, which must fit in a word. -/
def checkedSize (n : Nat) : HeapM Nat := do
  if n ≤ maxWord then return n
  throw (.outOfMemory maxWord (← get).limit)

/-- The payload size of a new object. `extra` is the number of bytes of a string or buffer, the
number of elements of a simple vector, the rank of an array, and zero for everything else. -/
def payloadSize (d : Descriptor) (extra : Nat) : HeapM Nat := do
  match d.kind with
  | .string | .buffer => checkedSize (refSize + extra)
  | .simpleVector => checkedSize (refSize * extra + refSize)
  | .array =>
    let rank := (← d.params.get 1).int?.getD (-1)
    if rank ≠ extra then
      throw (.invalidArgument
        ("array of rank " ++ toString rank ++ " allocated with rank " ++ toString extra))
    sizeOf d.ref
  | .abstract | .union =>
    throw (.invalidArgument ("cannot allocate an instance of abstract type " ++
      (← (← get).types.render d.ref)))
  | _ =>
    if extra ≠ 0 then
      throw (.invalidArgument
        (d.name.text ++ " is fixed-size; extra length " ++ toString extra ++ " given"))
    sizeOf d.ref

/-- Kinds whose payload starts with its length. -/
def hasLength : TypeKind → Bool
  | .string | .buffer | .simpleVector => true
  | _ => false

/-- Where the payload of the next object starts. -/
def nextStart (h : Heap) : Nat := alignUp (h.top + headerSize) payloadAlign

/-- Make sure that the memory reaches up to `stop`, which must be within the limit. -/
def reserve (stop requested : Nat) : HeapM Unit := do
  let h ← get
  if h.limit < stop then throw (.outOfMemory requested h.limit)
  if h.memory.length < stop then
    let length := min (max stop (h.memory.length * 2)) h.limit
    set { h with
      memory := h.memory.grow length
      stats := { h.stats with capacityBytes := length } }

/-- Enter an object of the given size and end that starts where memory was reserved. -/
def enter (v : Value) (size : Nat) : HeapM Unit :=
  modify fun h => { h with
    top := v.offset + size
    objects := (v.offset, size) :: h.objects
    stats := { h.stats with
      objects := h.stats.objects + 1
      allocatedBytes := h.stats.allocatedBytes + (size + headerSize) } }

/-- A new object of type `t`. -/
def allocate (t : TypeRef) (extra : Nat) : HeapM Value := do
  let d ← (← get).types.descriptor t
  let size ← payloadSize d extra
  let start := (← get).nextStart
  reserve (start + size) (min (size + headerSize) maxWord)
  match Value.ofWord? start with
  | none => throw (.invalidTag 0 .nullPayload)
  | some v =>
    enter v size
    writeWord (start - headerSize) (Header.new t GcBits.none).word
    if hasLength d.kind then writeWord start extra
    return v

end TypedHeap.Heap
