import TypedHeap.Heap.Allocate
import TypedHeap.Heap.Barrier
import TypedHeap.Scalar

/-!
# Boxed scalars

A box is an object that holds one scalar. Its type is the type of the scalar's kind, and reading it
as another kind fails.

* `Box.new`, `Box.read`: scalars of any kind.
* `Box.newType`, `Box.readType`: types as objects.
* `Datum`, `Datum.read`: what a field or element holds, and the scalar in it.
-/

namespace TypedHeap

namespace Heap

/-- The bytes of a scalar, with a key for it if it is a new symbol. -/
def encode (k : ScalarKind) (x : k.Carrier) : HeapM (List UInt8) := onSymbols (k.encode x)

/-- Store a scalar. -/
def storeScalar (off : Nat) (k : ScalarKind) (x : k.Carrier) : HeapM Unit := do
  let bs ← encode k x
  writeBytes off bs

/-- A scalar of a kind was expected where there are bits or an object of another type. -/
def scalarMismatch (h : Heap) (k : ScalarKind) (got : TypeRef) : Error := h.types.mismatch k.type got

end Heap

namespace Box

/-- A new box. -/
def new (k : ScalarKind) (x : k.Carrier) : HeapM Value := do
  let v ← Heap.allocate k.type 0
  Heap.storeScalar v.offset k x
  return v

/-- The scalar in a box of kind `k`. -/
def read (k : ScalarKind) (h : Heap) (v : Value) : Except Error k.Carrier := do
  let actual ← h.typeOf v
  if actual ≠ k.type then throw (h.scalarMismatch k actual)
  k.decode h.symbols (← h.bytes v.offset k.size)

/-- A type as an object. -/
def newType (t : TypeRef) : HeapM Value := do
  let _ ← (← get).types.descriptor t
  new .dataType t

/-- The type in a box that holds one. -/
def readType (h : Heap) (v : Value) : Except Error TypeRef := read .dataType h v

/-- A type parameter as an object. -/
def ofParam : TypeParam → HeapM Value
  | .type t => newType t
  | .int n => new .int64 n
  | .symbol s => new .symbol s
  | .bool b => new .bool b

end Box

/-- What a field or an element holds: a reference, or bits of a type. -/
inductive Datum where
  | ref (v : Value)
  | bits (type : TypeRef) (bytes : List UInt8)
  deriving DecidableEq

namespace Datum

/-- The reference, if there is one. -/
def ref? : Datum → Option Value
  | .ref v => some v
  | .bits .. => none

/-- The scalar of kind `k` that a datum is or refers to. -/
def read (k : ScalarKind) (h : Heap) : Datum → Except Error k.Carrier
  | .ref v => Box.read k h v
  | .bits t bytes =>
    if t = k.type then k.decode h.symbols bytes else .error (h.scalarMismatch k t)

end Datum

end TypedHeap
