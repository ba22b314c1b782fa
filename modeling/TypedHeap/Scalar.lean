import TypedHeap.Bytes.LittleEndian
import TypedHeap.Types.Builtin

/-!
# Scalars and their bytes

A scalar is a value that programs and the heap share: a number, a truth value, a character, a symbol
or a type. Each of the fourteen kinds has a fixed number of bytes, little-endian.

* `ScalarKind`, `ScalarKind.Carrier`: the kinds, and the values of a kind. Floating-point numbers are
  their bit patterns, so no value is lost.
* `ScalarKind.encode`: the bytes of a scalar. A symbol gets a key if it has none.
* `ScalarKind.decode`: the scalar in the first bytes of a run; some patterns are none.
-/

namespace TypedHeap

/-- The kinds of values that programs and the heap share. -/
inductive ScalarKind where
  | int8 | uint8 | int16 | uint16 | int32 | uint32 | int64 | uint64
  | float32 | float64
  | bool | char | symbol | dataType
  deriving DecidableEq, Repr

namespace ScalarKind

/-- Every kind once. -/
def all : List ScalarKind :=
  [int8, uint8, int16, uint16, int32, uint32, int64, uint64, float32, float64, bool, char, symbol,
    dataType]

/-- The name of the type of boxed scalars of a kind. -/
def name : ScalarKind → String
  | .int8 => "Int8"
  | .uint8 => "UInt8"
  | .int16 => "Int16"
  | .uint16 => "UInt16"
  | .int32 => "Int32"
  | .uint32 => "UInt32"
  | .int64 => "Int64"
  | .uint64 => "UInt64"
  | .float32 => "Float32"
  | .float64 => "Float64"
  | .bool => "Bool"
  | .char => "Char"
  | .symbol => "Symbol"
  | .dataType => "DataType"

/-- The type of boxed scalars of a kind. -/
def type : ScalarKind → TypeRef
  | .int8 => Builtin.int8
  | .uint8 => Builtin.uint8
  | .int16 => Builtin.int16
  | .uint16 => Builtin.uint16
  | .int32 => Builtin.int32
  | .uint32 => Builtin.uint32
  | .int64 => Builtin.int64
  | .uint64 => Builtin.uint64
  | .float32 => Builtin.float32
  | .float64 => Builtin.float64
  | .bool => Builtin.bool
  | .char => Builtin.char
  | .symbol => Builtin.symbol
  | .dataType => Builtin.dataType

/-- The bytes that a scalar of a kind takes. -/
def size : ScalarKind → Nat
  | .int8 | .uint8 | .bool => 1
  | .int16 | .uint16 => 2
  | .int32 | .uint32 | .float32 | .char | .symbol | .dataType => 4
  | .int64 | .uint64 | .float64 => 8

/-- The values of a kind. -/
@[reducible] def Carrier : ScalarKind → Type
  | .int8 => Int8
  | .uint8 => UInt8
  | .int16 => Int16
  | .uint16 => UInt16
  | .int32 => Int32
  | .uint32 => UInt32
  | .int64 => Int64
  | .uint64 => UInt64
  | .float32 => UInt32
  | .float64 => UInt64
  | .bool => Bool
  | .char => Char
  | .symbol => Symbol
  | .dataType => TypeRef

instance (k : ScalarKind) : DecidableEq k.Carrier := by
  cases k <;> exact inferInstance

/-- The kind whose boxed scalars have a given type. -/
def ofType? (t : TypeRef) : Option ScalarKind := all.find? fun k => k.type == t

@[simp] theorem ofType?_type (k : ScalarKind) : ofType? k.type = some k := by
  cases k <;> rfl

/-- Different kinds have different types. -/
theorem type_injective {j k : ScalarKind} (h : j.type = k.type) : j = k :=
  Option.some.inj (by rw [← ofType?_type j, h, ofType?_type])

/-! ## Words -/

/-- The number that a scalar is stored as. A symbol is stored as its key. -/
def toWord : (k : ScalarKind) → k.Carrier → Action SymbolTable Nat
  | .int8, x => return x.toUInt8.toNat
  | .uint8, x => return x.toNat
  | .int16, x => return x.toUInt16.toNat
  | .uint16, x => return x.toNat
  | .int32, x => return x.toUInt32.toNat
  | .uint32, x => return x.toNat
  | .int64, x => return x.toUInt64.toNat
  | .uint64, x => return x.toNat
  | .float32, x => return x.toNat
  | .float64, x => return x.toNat
  | .bool, x => return x.toNat
  | .char, x => return x.val.toNat
  | .symbol, x => SymbolTable.intern x
  | .dataType, x => return x.index

/-- The scalar that a number stands for. Truth values are zero and one, characters are Unicode
scalar values, symbols must be listed and types are not zero. -/
def ofWord (symbols : SymbolTable) : (k : ScalarKind) → Nat → Except Error k.Carrier
  | .int8, n => .ok (UInt8.ofNat n).toInt8
  | .uint8, n => .ok (UInt8.ofNat n)
  | .int16, n => .ok (UInt16.ofNat n).toInt16
  | .uint16, n => .ok (UInt16.ofNat n)
  | .int32, n => .ok (UInt32.ofNat n).toInt32
  | .uint32, n => .ok (UInt32.ofNat n)
  | .int64, n => .ok (UInt64.ofNat n).toInt64
  | .uint64, n => .ok (UInt64.ofNat n)
  | .float32, n => .ok (UInt32.ofNat n)
  | .float64, n => .ok (UInt64.ofNat n)
  | .bool, n =>
    if n = 0 then .ok false
    else if n = 1 then .ok true
    else .error (.typeMismatch "Bool" ("byte " ++ hexPadded 2 n))
  | .char, n =>
    if h : n.isValidChar then .ok (Char.ofNatAux n h)
    else .error (.typeMismatch "Char" ("invalid scalar " ++ hex n))
  | .symbol, n =>
    match symbols.find? n with
    | some s => .ok s
    | none => .error (.typeMismatch "Symbol" ("unknown symbol id " ++ toString n))
  | .dataType, n =>
    match TypeRef.ofIndex? n with
    | some t => .ok t
    | none => .error (.typeMismatch "DataType" "null type reference")

/-! ## Bytes -/

/-- The bytes of a scalar. -/
def encode (k : ScalarKind) (x : k.Carrier) : Action SymbolTable (List UInt8) :=
  return LittleEndian.toBytes k.size (← k.toWord x)

/-- The scalar in the first bytes of a run. -/
def decode (symbols : SymbolTable) (k : ScalarKind) (bytes : List UInt8) : Except Error k.Carrier :=
  if bytes.length < k.size then
    .error (.typeMismatch k.name (toString bytes.length ++ " bytes"))
  else k.ofWord symbols (LittleEndian.ofBytes (bytes.take k.size))

/-- A run of bytes with other bytes in place of its first ones. -/
def overwrite (front bytes : List UInt8) : List UInt8 := front ++ bytes.drop front.length

end ScalarKind

end TypedHeap
