import TypedHeap.Types.Family

/-!
# Builtin types

The types that every registry starts with, in the order in which they are registered, and the
references that follow from that order. `Array`, `Tuple` and `Union` are families without an
instance until they are applied.
-/

namespace TypedHeap.Builtin

/-! ## References -/

def any : TypeRef := TypeRef.first
def dataType : TypeRef := ⟨2, by decide, by decide⟩
def nothing : TypeRef := ⟨3, by decide, by decide⟩
def bool : TypeRef := ⟨4, by decide, by decide⟩
def char : TypeRef := ⟨5, by decide, by decide⟩
def int8 : TypeRef := ⟨6, by decide, by decide⟩
def uint8 : TypeRef := ⟨7, by decide, by decide⟩
def int16 : TypeRef := ⟨8, by decide, by decide⟩
def uint16 : TypeRef := ⟨9, by decide, by decide⟩
def int32 : TypeRef := ⟨10, by decide, by decide⟩
def uint32 : TypeRef := ⟨11, by decide, by decide⟩
def int64 : TypeRef := ⟨12, by decide, by decide⟩
def uint64 : TypeRef := ⟨13, by decide, by decide⟩
def float32 : TypeRef := ⟨14, by decide, by decide⟩
def float64 : TypeRef := ⟨15, by decide, by decide⟩
def symbol : TypeRef := ⟨16, by decide, by decide⟩
def string : TypeRef := ⟨17, by decide, by decide⟩
def simpleVector : TypeRef := ⟨18, by decide, by decide⟩
def buffer : TypeRef := ⟨19, by decide, by decide⟩
def moduleType : TypeRef := ⟨20, by decide, by decide⟩

/-- The builtin references in registration order. -/
def all : List TypeRef :=
  [any, dataType, nothing, bool, char, int8, uint8, int16, uint16, int32, uint32, int64, uint64,
    float32, float64, symbol, string, simpleVector, buffer, moduleType]

/-! ## Families -/

/-- A builtin family below `Any`, without parameters and fields. -/
def family (name : String) (kind : TypeKind) : Family where
  name := name
  home := "Core"
  params := []
  fieldNames := []
  fieldSpecs := []
  kind := kind
  isMutable := false
  supertype := some any
  variadic := false

/-- A builtin family of bits aligned to their own size. -/
def bits (name : String) (size : Nat) : Family :=
  family name (.primitive (.ofNat size) (.ofNat size))

/-- The builtin families with exactly one instance, in registration order. -/
def single : List Family :=
  [{ family "Any" .abstract with supertype := none },
    bits "DataType" 4,
    family "Nothing" .struct,
    bits "Bool" 1, bits "Char" 4,
    bits "Int8" 1, bits "UInt8" 1, bits "Int16" 2, bits "UInt16" 2,
    bits "Int32" 4, bits "UInt32" 4, bits "Int64" 8, bits "UInt64" 8,
    bits "Float32" 4, bits "Float64" 8,
    bits "Symbol" 4,
    family "String" .string, family "SimpleVector" .simpleVector, family "Buffer" .buffer,
    { family "Module" .struct with
      fieldNames := ["name", "parent"]
      fieldSpecs := [.type symbol, .type any]
      lengths := rfl
      isMutable := true }]

/-- The family of arrays: an element type and a number of dimensions. -/
def arrayFamily : Family := { family "Array" .array with params := ["T", "N"] }

/-- The family of tuples: any number of field types. -/
def tupleFamily : Family := { family "Tuple" .tuple with variadic := true }

/-- The family of unions: any number of member types. -/
def unionFamily : Family := { family "Union" .union with variadic := true }

/-- The builtin families that have no instance until they are applied. -/
def applied : List Family := [arrayFamily, tupleFamily, unionFamily]

/-- The names that builtin declarations mention, in the order in which they are written down. -/
def names : List Symbol :=
  ["Any", "Main", "Core", "DataType", "Nothing", "Bool", "Char", "Int8", "UInt8", "Int16", "UInt16",
    "Int32", "UInt32", "Int64", "UInt64", "Float32", "Float64", "Symbol", "String", "SimpleVector",
    "Buffer", "Module", "name", "parent", "Array", "T", "N", "Tuple", "Union"]

end TypedHeap.Builtin
