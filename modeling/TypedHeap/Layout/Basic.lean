import TypedHeap.Symbol
import TypedHeap.Tag

/-!
# Layouts

A `Layout` says how the payload of an object is divided: its size and alignment, where each field
lies, and which offsets hold references. Fields are placed one after the other, each at the first
offset that suits its alignment. Sizes are declared by programs and may be as large as a word, so a sum
of them may be no word; then there is no layout.

* `alignUp`: the first multiple of an alignment that is not below a number.
* `Word.add`, `Word.alignUp`: sums and multiples that must fit in a word.
* `Slot`, `FieldLayout`: fields before and after they have an offset.
* `Draft`: a layout in the making.
* `Layout.placed`: the layout of a product of fields.
* `Layout.bits`, `Layout.handle`: layouts without fields.

Main results: `le_alignUp`, `alignUp_lt`, `dvd_alignUp`.
-/

namespace TypedHeap

/-- Bytes of a stored reference. -/
def refSize : Nat := 8

/-! ## Alignment -/

/-- The first multiple of `a` that is not below `n`. -/
def alignUp (n a : Nat) : Nat := (n + a - 1) / a * a

theorem le_alignUp {n a : Nat} (h : 0 < a) : n ≤ alignUp n a := by
  have h1 := Nat.div_add_mod (n + a - 1) a
  have h2 := Nat.mod_lt (n + a - 1) h
  rw [Nat.mul_comm] at h1
  simp only [alignUp]
  omega

theorem alignUp_lt {n a : Nat} (h : 0 < a) : alignUp n a < n + a := by
  have h1 := Nat.div_mul_le_self (n + a - 1) a
  simp only [alignUp]
  omega

theorem dvd_alignUp (n a : Nat) : a ∣ alignUp n a := Nat.dvd_mul_left a _

/-! ## Words -/

namespace Word

variable {a b c : Nat}

/-- The sum of two sizes or offsets, which must fit in a word. -/
def add (a b : Nat) : Except Error Nat :=
  if a + b < 0x10000000000000000 then .ok (a + b) else .error .overflow

theorem add_eq_ok : add a b = .ok c ↔ a + b < 0x10000000000000000 ∧ c = a + b := by
  unfold add
  split
  · rename_i h
    exact ⟨fun heq => ⟨h, (Except.ok.inj heq).symm⟩, fun heq => congrArg Except.ok heq.2.symm⟩
  · rename_i h
    exact ⟨nofun, fun heq => absurd heq.1 h⟩

theorem add_of_lt (h : a + b < 0x10000000000000000) : add a b = .ok (a + b) := add_eq_ok.2 ⟨h, rfl⟩

/-- A multiple of `a` that is not below `n`, for a power of two `a`: the low bits of a word are cleared. -/
def alignUp (n a : Nat) : Except Error Nat := do
  let sum ← add n a
  return (BitVec.ofNat 64 (sum - 1) &&& ~~~BitVec.ofNat 64 (a - 1)).toNat

end Word

/-! ## Fields -/

/-- A field that has no offset yet. -/
structure Slot where
  name : Symbol
  type : TypeRef
  size : Nat
  align : Nat
  /-- Stored by value rather than as a reference. -/
  isInline : Bool
  deriving DecidableEq

/-- A field that is stored as a reference. -/
def Slot.reference (name : Symbol) (type : TypeRef) : Slot := ⟨name, type, refSize, refSize, false⟩

/-- A field and the place it was given. -/
structure FieldLayout where
  name : Symbol
  type : TypeRef
  offset : Nat
  size : Nat
  /-- Stored by value rather than as a reference. -/
  isInline : Bool
  deriving DecidableEq

/-! ## Layouts -/

/-- How the payload of an object is divided. -/
structure Layout where
  size : Nat
  alignment : Nat
  fields : List FieldLayout
  /-- The offsets that hold references. -/
  pointerOffsets : List Nat
  /-- Immutable and without references, so values of the type can be stored inside others. -/
  isBits : Bool
  /-- Some bytes between or after the fields belong to none of them. -/
  hasPadding : Bool
  deriving DecidableEq

/-- A layout in the making: what is known of the fields that have a place. -/
structure Draft where
  /-- The end of the last field. -/
  stop : Nat
  alignment : Nat
  fields : List FieldLayout
  pointerOffsets : List Nat
  hasPadding : Bool

namespace Draft

/-- No field has a place yet. -/
def empty : Draft := ⟨0, 1, [], [], false⟩

/-- Place one more field behind the others. -/
def add (d : Draft) (s : Slot) : Except Error Draft := do
  let start ← Word.alignUp d.stop s.align
  let stop ← Word.add start s.size
  return {
    stop
    alignment := max d.alignment s.align
    fields := d.fields ++ [⟨s.name, s.type, start, s.size, s.isInline⟩]
    pointerOffsets := if s.isInline then d.pointerOffsets else d.pointerOffsets ++ [start]
    hasPadding := d.hasPadding || start != d.stop }

/-- The layout when all fields have a place. -/
def finish (d : Draft) (isMutable : Bool) : Except Error Layout := do
  let size ← Word.alignUp d.stop d.alignment
  return {
    size
    alignment := d.alignment
    fields := d.fields
    pointerOffsets := d.pointerOffsets
    isBits := !isMutable && d.pointerOffsets.isEmpty
    hasPadding := d.hasPadding || size != d.stop }

end Draft

namespace Layout

/-- Bits of a fixed size without fields. -/
def bits (size alignment : Nat) : Layout := ⟨size, alignment, [], [], true, false⟩

/-- A payload that field access does not look into. -/
def handle (size alignment : Nat) (pointerOffsets : List Nat) : Layout :=
  ⟨size, alignment, [], pointerOffsets, false, false⟩

/-- The layout of a product of fields. -/
def placed (isMutable : Bool) (slots : List Slot) : Except Error Layout := do
  let draft ← slots.foldlM Draft.add Draft.empty
  draft.finish isMutable

/-- The field at an index. -/
def field (l : Layout) (i : Nat) : Except Error FieldLayout :=
  match l.fields[i]? with
  | some f => .ok f
  | none => .error (.indexOutOfRange .field i l.fields.length)

/-- The index of the field with a given name. -/
def fieldIndex? (l : Layout) (name : Symbol) : Option Nat := l.fields.findIdx? (·.name == name)

end Layout

/-- The offset of an array's owner word, behind four words and one word for each dimension. -/
def ownerOffset (ndims : Nat) : Nat := refSize * (4 + ndims)

end TypedHeap
