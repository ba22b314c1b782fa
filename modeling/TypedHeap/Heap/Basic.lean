import TypedHeap.Bytes.LittleEndian
import TypedHeap.Bytes.Memory
import TypedHeap.Heap.Config
import TypedHeap.Registry

/-!
# The heap

A `Heap` is one growable row of bytes in which objects lie one after the other, each a header word
followed by its payload. A `Value` is the offset of a payload. Nothing is ever freed, so the table of
objects only grows.

* `Value`: references, and the words they are stored as.
* `Heap`: the state; `Heap.fresh` is a heap without objects.
* `Heap.objectSize`, `bytes`, `readWord`, `readRef`, `header`, `typeOf`, `gcBits`: questions. A run of
  bytes may be read only below `Heap.top`.
* `HeapM`: actions on a heap; `writeBytes`, `writeWord`, `writeRef`, `copyBytes`, `setGcBits` are the
  ones that change bytes.
-/

namespace TypedHeap

/-! ## Values -/

/-- A reference to an object: the offset of its payload, a positive 64-bit number. -/
structure Value where
  offset : Nat
  pos : 0 < offset
  lt : offset < 0x10000000000000000

namespace Value

@[ext] theorem ext {v w : Value} (h : v.offset = w.offset) : v = w := by
  cases v; cases w; cases h; rfl

instance : DecidableEq Value := fun v w =>
  decidable_of_iff (v.offset = w.offset) ⟨ext, congrArg offset⟩

/-- The reference with a given offset, unless it is zero or too large. -/
def ofWord? (n : Nat) : Option Value :=
  if h : 0 < n ∧ n < 0x10000000000000000 then some ⟨n, h.1, h.2⟩ else none

/-- The word that a slot holds: the offset, or zero where there is no reference. -/
def toWord : Option Value → Nat
  | some v => v.offset
  | none => 0

/-- A slot holds what was stored in it. -/
@[simp] theorem ofWord?_toWord (v : Option Value) : ofWord? (toWord v) = v := by
  cases v with
  | none => rfl
  | some v => exact dif_pos ⟨v.pos, v.lt⟩

theorem toWord_lt (v : Option Value) : toWord v < 0x10000000000000000 := by
  cases v with
  | none => decide
  | some v => exact v.lt

/-- How a reference is shown. -/
def text (v : Value) : String := "#<value @" ++ hex v.offset ++ ">"

end Value

/-! ## State -/

/-- What a heap counts. -/
structure HeapStats where
  objects : Nat
  /-- Bytes of payloads and headers. -/
  allocatedBytes : Nat
  capacityBytes : Nat
  /-- Parents that the write barrier queued. -/
  barrierHits : Nat
  deriving DecidableEq, Repr

/-- What becomes of parents that the write barrier reports. -/
inductive Barrier where
  /-- They are forgotten: the heap has no generational collector. -/
  | off
  /-- They are kept, in the order in which they were reported, until the collector takes them. -/
  | remembering (roots : List Value)
  deriving DecidableEq

namespace Barrier

/-- Report a parent. -/
def queue (v : Value) : Barrier → Barrier
  | .off => .off
  | .remembering roots => .remembering (roots ++ [v])

/-- The parents that wait for the collector. -/
def roots : Barrier → List Value
  | .off => []
  | .remembering roots => roots

/-- Nothing waits any more. -/
def cleared : Barrier → Barrier
  | .off => .off
  | .remembering _ => .remembering []

end Barrier

/-- Objects in memory, and what is needed to make sense of them. -/
structure Heap where
  registry : Registry
  symbols : SymbolTable
  config : HeapConfig
  memory : Memory
  /-- The end of the last object. -/
  top : Nat
  /-- Payload offsets and payload sizes, the newest object in front. -/
  objects : List (Nat × Nat)
  barrier : Barrier
  stats : HeapStats

/-- Actions on a heap. -/
abbrev HeapM : Type → Type := Action Heap

namespace Heap

/-- A heap without objects. -/
def fresh (config : HeapConfig) (barrier : Barrier) : Heap :=
  let initial := (min config.initialBytes config.maxBytes).toNat
  { registry := Registry.fresh
    symbols := SymbolTable.ofList Builtin.names
    config := config
    memory := Memory.zeros initial
    top := 0
    objects := []
    barrier := barrier
    stats := { objects := 0, allocatedBytes := 0, capacityBytes := initial, barrierHits := 0 } }

/-- The type table of the heap's registry. -/
def types (h : Heap) : TypeTable := h.registry.table

/-- How many bytes the memory may ever have. -/
def limit (h : Heap) : Nat := h.config.maxBytes.toNat

/-- Every object, in order of allocation. -/
def values (h : Heap) : List Value :=
  (h.objects.reverse.map Prod.fst).filterMap Value.ofWord?

/-! ## Parts of the state -/

variable {α : Type}

/-- Work on the registry alone. -/
def onRegistry (x : Action Registry α) : HeapM α :=
  Action.focus Heap.registry (fun h r => { h with registry := r }) x

/-- Work on the type table alone. -/
def onTypes (x : Action TypeTable α) : HeapM α := onRegistry (Registry.onTypes x)

/-- Work on the symbol table alone. -/
def onSymbols (x : Action SymbolTable α) : HeapM α :=
  Action.focus Heap.symbols (fun h t => { h with symbols := t }) x

/-- The layout of a type. -/
def layout (t : TypeRef) : HeapM Layout := onRegistry (Registry.layout t)

/-- The bytes a value of a type takes. -/
def sizeOf (t : TypeRef) : HeapM Nat := onRegistry (Registry.sizeOf t)

/-- Whether values of a type are stored inside the objects and arrays that hold them. -/
def isInline (t : TypeRef) : HeapM Bool := onRegistry (Registry.isInline t)

/-! ## Reading memory -/

/-- The payload size of an object. -/
def objectSize (h : Heap) (v : Value) : Except Error Nat :=
  match h.objects.lookup v.offset with
  | some size => .ok size
  | none => .error (.invalidTag v.offset .notAnObject)

/-- A run of bytes must end at or below the end of the last object. -/
def checkRange (h : Heap) (off len : Nat) : Except Error Unit :=
  if off + len ≤ h.top then .ok () else .error (.indexOutOfRange .heap off h.top)

/-- The bytes of a run. -/
def bytes (h : Heap) (off len : Nat) : Except Error (List UInt8) := do
  h.checkRange off len
  return h.memory.window off len

/-- The word at an offset. -/
def readWord (h : Heap) (off : Nat) : Except Error Nat :=
  return LittleEndian.ofBytes (← h.bytes off 8)

/-- The reference at an offset, if the slot holds one. -/
def readRef (h : Heap) (off : Nat) : Except Error (Option Value) :=
  return Value.ofWord? (← h.readWord off)

/-- The whole payload of an object. -/
def payload (h : Heap) (v : Value) : Except Error (List UInt8) := do
  let size ← h.objectSize v
  h.bytes v.offset size

/-! ## Reading headers -/

/-- The header of an object. -/
def header (h : Heap) (v : Value) : Except Error Header := do
  let _ ← h.objectSize v
  return ⟨← h.readWord (v.offset - 8)⟩

/-- The type of an object: what its header holds besides the collector's flags. -/
def typeOf (h : Heap) (v : Value) : Except Error TypeRef := do
  let word ← h.header v
  match word.type? with
  | none => throw (.invalidTag v.offset .noDescriptor)
  | some t =>
    if h.types.contains t then return t
    else throw (.invalidTag v.offset .unknownDescriptor)

/-- The descriptor of an object's type. -/
def descriptor (h : Heap) (v : Value) : Except Error Descriptor := do
  let t ← h.typeOf v
  h.types.descriptor t

/-- An object must have exactly the given type. -/
def expectType (h : Heap) (v : Value) (t : TypeRef) : Except Error Unit := do
  let actual ← h.typeOf v
  if actual ≠ t then throw (h.types.mismatch t actual)

/-- The collector's flags of an object. -/
def gcBits (h : Heap) (v : Value) : Except Error GcBits :=
  return (← h.header v).gc

/-- Whether an object has exactly the given type. -/
def isOfType (h : Heap) (v : Value) (t : TypeRef) : Except Error Bool :=
  return (← h.typeOf v) = t

/-- Whether an object may stand where a type is asked for. -/
def isa (h : Heap) (v : Value) (t : TypeRef) : Except Error Bool := do
  let actual ← h.typeOf v
  h.types.isa actual t

/-! ## Writing memory -/

/-- Overwrite a run of bytes. -/
def writeBytes (off : Nat) (bs : List UInt8) : HeapM Unit := do
  Action.look (·.checkRange off bs.length)
  modify fun h => { h with memory := h.memory.write off bs }

/-- Overwrite the word at an offset. -/
def writeWord (off n : Nat) : HeapM Unit := writeBytes off (LittleEndian.toBytes 8 n)

/-- Overwrite the slot at an offset. -/
def writeRef (off : Nat) (v : Option Value) : HeapM Unit := writeWord off (Value.toWord v)

/-- Overwrite a run of bytes with zeros. -/
def clearBytes (off len : Nat) : HeapM Unit := do
  Action.look (·.checkRange off len)
  writeBytes off (List.replicate len 0)

/-- Copy a run of bytes to another place, as it was before the copy. -/
def copyBytes (src len dst : Nat) : HeapM Unit := do
  let bs ← Action.look (·.bytes src len)
  writeBytes dst bs

/-- Replace the collector's flags of an object. -/
def setGcBits (v : Value) (g : GcBits) : HeapM Unit := do
  let word ← Action.look (·.header v)
  writeWord (v.offset - 8) (word.withGc g).word

end Heap

end TypedHeap
