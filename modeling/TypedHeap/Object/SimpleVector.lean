import TypedHeap.Object.Box

/-!
# Simple vectors

A simple vector is a length followed by that many references. Its length is fixed once it is handed
out; until then it is under construction, in the hands of a `SimpleVector.Builder`, which may fill and
shorten it.

* `SimpleVector.build`, `Builder.set`, `Builder.truncate`, `Builder.publish`: construction.
* `SimpleVector.new`, `SimpleVector.ofParams`: whole vectors.
* `SimpleVector.length`, `SimpleVector.get`: questions.
-/

namespace TypedHeap.SimpleVector

/-- The offset of the slot at an index. -/
def slot (v : Value) (i : Nat) : Nat := v.offset + refSize * (i + 1)

/-! ## Construction -/

/-- A simple vector that has not been handed out. -/
structure Builder where
  value : Value
  length : Nat
  deriving DecidableEq

/-- Begin a vector of the given length, with no reference in it. -/
def build (length : Nat) : HeapM Builder := do
  let v ← Heap.allocate Builtin.simpleVector length
  return ⟨v, length⟩

/-- Store a reference. -/
def Builder.set (b : Builder) (i : Nat) (x : Value) : HeapM Unit := do
  if b.length ≤ i then throw (.indexOutOfRange .element i b.length)
  Heap.storeRef b.value (slot b.value i) x

/-- Empty the slots of a vector from index `i` on, `n` of them. -/
def clearSlots (v : Value) (i : Nat) : Nat → HeapM Unit
  | 0 => return ()
  | n + 1 => do
    Heap.writeRef (slot v i) none
    clearSlots v (i + 1) n

/-- Keep the first `length` slots only. -/
def Builder.truncate (b : Builder) (length : Nat) : HeapM Builder := do
  if b.length < length then throw (.indexOutOfRange .element length b.length)
  clearSlots b.value length (b.length - length)
  Heap.writeWord b.value.offset length
  return { b with length }

/-- Hand the vector out. -/
def Builder.publish (b : Builder) : Value := b.value

/-- Store references in consecutive slots from index `i` on. -/
def Builder.fill (b : Builder) (i : Nat) : List Value → HeapM Unit
  | [] => return ()
  | x :: xs => do
    b.set i x
    b.fill (i + 1) xs

/-- A vector of the given references. -/
def new (items : List Value) : HeapM Value := do
  let b ← build items.length
  b.fill 0 items
  return b.publish

/-- A vector of type parameters as objects. -/
def ofParams (ps : Params) : HeapM Value := do
  let items ← ps.mapM Box.ofParam
  new items

/-! ## Questions -/

/-- The number of slots. -/
def length (h : Heap) (v : Value) : Except Error Nat := do
  h.expectType v Builtin.simpleVector
  h.readWord v.offset

/-- The reference at an index. -/
def get (h : Heap) (v : Value) (i : Nat) : Except Error Value := do
  let len ← length h v
  if len ≤ i then throw (.indexOutOfRange .element i len)
  match ← h.readRef (slot v i) with
  | some x => return x
  | none => throw (.undefined ("simple vector element " ++ toString i))

end TypedHeap.SimpleVector
