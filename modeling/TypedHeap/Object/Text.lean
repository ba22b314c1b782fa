import TypedHeap.Heap.Allocate

/-!
# Strings and buffers

Both are a length followed by that many bytes. A string holds arbitrary bytes and is only taken for
text when it is read as text, which can fail. Buffers back arrays.

* `Utf8.read`: the text that bytes encode, or how many bytes there are before the first malformed one.
* `Text.new`, `Text.ofBytes`, `Text.data`, `Text.read`: strings.
* `Buffer.new`, `Buffer.data`, `Buffer.start`: buffers.
-/

namespace TypedHeap

namespace Utf8

/-- Decode from byte `pos` on, after the characters in `seen`. A character takes at least one byte,
so as many rounds as there are bytes left are enough. -/
def readFrom (bytes : ByteArray) : Nat → Nat → String → Except Nat String
  | 0, _, seen => .ok seen
  | rounds + 1, pos, seen =>
    if bytes.size ≤ pos then .ok seen
    else
      match bytes.utf8DecodeChar? pos with
      | some c => readFrom bytes rounds (pos + c.utf8Size) (seen.push c)
      | none => .error pos

/-- The text that bytes encode, or the length of the longest well-formed part at their front. -/
def read (bytes : List UInt8) : Except Nat String :=
  readFrom ⟨bytes.toArray⟩ bytes.length 0 ""

/-- The bytes that encode a text. -/
def write (s : String) : List UInt8 := s.toUTF8.data.toList

end Utf8

/-- The length word of an object of type `t`. -/
def Heap.lengthOf (h : Heap) (t : TypeRef) (v : Value) : Except Error Nat := do
  h.expectType v t
  h.readWord v.offset

namespace Text

/-- A new string with the given bytes. -/
def ofBytes (bs : List UInt8) : HeapM Value := do
  let v ← Heap.allocate Builtin.string bs.length
  Heap.writeBytes (v.offset + refSize) bs
  return v

/-- A new string with the given text. -/
def new (s : String) : HeapM Value := ofBytes (Utf8.write s)

/-- The number of bytes of a string. -/
def length (h : Heap) (v : Value) : Except Error Nat := h.lengthOf Builtin.string v

/-- The bytes of a string. -/
def data (h : Heap) (v : Value) : Except Error (List UInt8) := do
  let len ← length h v
  h.bytes (v.offset + refSize) len

/-- A string as text. -/
def read (h : Heap) (v : Value) : Except Error String := do
  match Utf8.read (← data h v) with
  | .ok s => return s
  | .error validUpTo => throw (.invalidUtf8 validUpTo)

end Text

namespace Buffer

/-- A new buffer of zero bytes. -/
def new (length : Nat) : HeapM Value := Heap.allocate Builtin.buffer length

/-- The number of bytes of a buffer. -/
def length (h : Heap) (v : Value) : Except Error Nat := h.lengthOf Builtin.buffer v

/-- The bytes of a buffer. -/
def data (h : Heap) (v : Value) : Except Error (List UInt8) := do
  let len ← length h v
  h.bytes (v.offset + refSize) len

/-- The offset of a buffer's first byte. -/
def start (h : Heap) (v : Value) : Except Error Nat := do
  h.expectType v Builtin.buffer
  return v.offset + refSize

end Buffer

end TypedHeap
