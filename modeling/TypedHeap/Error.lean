/-!
# Errors

Every operation of the library fails with an `Error`: what went wrong, with the numbers and names a
reader needs to act on it. The wording lives in one place, `Error.message`.

* `IndexKind`, `TagFault`: which index was out of range, why an address is no object.
* `Error.message`: the one-line text of an error.
* `Error.isContractViolation`: whether the caller could have avoided it by passing a valid index,
  value or type.
-/

namespace TypedHeap

/-! ## Causes -/

/-- What an index that is out of range was counting. -/
inductive IndexKind where
  | field
  | parameter
  | element
  | argument
  | dimension
  | heap
  deriving DecidableEq, Repr

/-- The noun an index counts, as messages name it. -/
def IndexKind.noun : IndexKind → String
  | .field => "field"
  | .parameter => "parameter"
  | .element => "element"
  | .argument => "argument"
  | .dimension => "dimension"
  | .heap => "heap offset"

/-- Why an address or a reference does not lead to a usable object or descriptor. -/
inductive TagFault where
  /-- A reference that is not the payload offset of an allocated object. -/
  | notAnObject
  /-- A type reference whose index the registry never handed out. -/
  | unregistered
  /-- A header word whose upper bits hold no descriptor address. -/
  | noDescriptor
  /-- A header word that names a descriptor the registry never handed out. -/
  | unknownDescriptor
  /-- An allocation that would start at offset zero. -/
  | nullPayload
  /-- A union selector beyond the members of the element type. -/
  | badSelector
  /-- An array whose data word was never filled. -/
  | noBuffer
  /-- An array whose owner word was never filled. -/
  | noOwner
  /-- An array type whose first parameter is not a type. -/
  | noElementType
  /-- Any other reason, in the reporter's own words. -/
  | described (text : String)
  deriving DecidableEq, Repr

/-- The reason as messages give it. -/
def TagFault.reason : TagFault → String
  | .notAnObject => "not the start of a live allocation"
  | .unregistered => "unregistered descriptor"
  | .noDescriptor => "header holds no descriptor address"
  | .unknownDescriptor => "header names an unregistered descriptor"
  | .nullPayload => "null payload"
  | .badSelector => "bad union selector"
  | .noBuffer => "array without buffer"
  | .noOwner => "array without owner"
  | .noElementType => "array type without element type"
  | .described text => text

/-- What can go wrong in an operation on types, objects or nodes. -/
inductive Error where
  /-- An address does not lead where it should. -/
  | invalidTag (addr : Nat) (fault : TagFault)
  /-- An index is not below the length it is counted against. -/
  | indexOutOfRange (kind : IndexKind) (index len : Nat)
  /-- A value or type is not of the type an operation asks for. -/
  | typeMismatch (expected got : String)
  /-- A name, field or slot that has nothing behind it. -/
  | undefined (what : String)
  /-- A store into something that never changes. -/
  | immutable (what : String)
  /-- A type declaration that breaks a rule of declarations. -/
  | invalidDefinition (what : String)
  /-- An argument that no other cause describes. -/
  | invalidArgument (what : String)
  /-- Bytes that stop being UTF-8 at an offset. -/
  | invalidUtf8 (validUpTo : Nat)
  /-- An allocation that does not fit under the heap's limit. -/
  | outOfMemory (requested limit : Nat)
  /-- A sum of sizes or offsets that is no word. This is no answer of an operation: what was under way
  is given up where it stands, and nobody deals with it. -/
  | overflow
  deriving DecidableEq, Repr

/-! ## Wording -/

/-- A number in lower-case hexadecimal with the usual `0x` in front and no padding. -/
def hex (n : Nat) : String :=
  "0x" ++ String.ofList (Nat.toDigits 16 n)

/-- A number in lower-case hexadecimal behind `0x`, with zeros in front up to `width` digits. -/
def hexPadded (width n : Nat) : String :=
  "0x" ++ String.ofList ((Nat.toDigits 16 n).leftpad width '0')

namespace Error

/-- The text of an error. -/
def message : Error → String
  | .invalidTag addr fault => "Invalid tag at " ++ hex addr ++ ": " ++ fault.reason
  | .indexOutOfRange kind index len =>
      "Index out of range: " ++ kind.noun ++ " index " ++ toString index ++ ", length " ++ toString len
  | .typeMismatch expected got => "Type mismatch: expected " ++ expected ++ ", got " ++ got
  | .undefined what => "Undefined reference: " ++ what
  | .immutable what => "Immutable: " ++ what ++ " cannot be changed"
  | .invalidDefinition what => "Invalid type definition: " ++ what
  | .invalidArgument what => "Invalid argument: " ++ what
  | .invalidUtf8 validUpTo => "Invalid UTF-8 in string at byte " ++ toString validUpTo
  | .outOfMemory requested limit =>
      "Out of memory: requested " ++ toString requested ++ " bytes, limit " ++ toString limit
  | .overflow => "attempt to add with overflow"

/-- True for the misuse errors that a caller provokes with a bad reference, index or type, as
opposed to bad definitions, missing values and exhaustion. -/
def isContractViolation : Error → Bool
  | .invalidTag .. | .indexOutOfRange .. | .typeMismatch .. => true
  | _ => false

end Error

end TypedHeap
