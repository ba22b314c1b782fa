import TypedHeap.Error

/-!
# Type references and header words

Every object is preceded by one 64-bit header word. Its upper bits are the address of the object's
type descriptor, its four low bits belong to the collector.

* `TypeRef`: a descriptor by its number, counted from one; `TypeRef.addr` is its address, a
  multiple of sixteen, and `TypeRef.ofAddr?` reads it back.
* `GcBits`: the collector's four flags.
* `Header`: a header word with its two parts.

Main results: `TypeRef.ofAddr?_addr`, `Header.type?_new`, `Header.gc_new`, `Header.type?_withGc`,
`Header.gc_withGc`.
-/

namespace TypedHeap

/-! ## Type references -/

/-- The number of a type descriptor. Numbers start at one and fit in 32 bits. -/
structure TypeRef where
  index : Nat
  pos : 0 < index
  lt : index < 0x100000000
  deriving DecidableEq

namespace TypeRef

/-- The reference to the first descriptor. -/
def first : TypeRef := ⟨1, by decide, by decide⟩

@[ext] theorem ext {s t : TypeRef} (h : s.index = t.index) : s = t := by
  cases s; cases t; cases h; rfl

/-- The reference with a given number, unless the number is zero or too large. -/
def ofIndex? (n : Nat) : Option TypeRef :=
  if h : 0 < n ∧ n < 0x100000000 then some ⟨n, h.1, h.2⟩ else none

/-- The address of a descriptor as it appears in a header word. -/
def addr (t : TypeRef) : Nat := t.index * 16

/-- The reference behind a descriptor address, unless the address is zero, misaligned or too
large. -/
def ofAddr? (a : Nat) : Option TypeRef :=
  if a % 16 = 0 then ofIndex? (a / 16) else none

/-- How a type reference is shown when its name is not known. -/
def debug (t : TypeRef) : String := "TypeRef(" ++ hex t.addr ++ ")"

@[simp] theorem ofIndex?_index (t : TypeRef) : ofIndex? t.index = some t :=
  dif_pos ⟨t.pos, t.lt⟩

theorem index_of_ofIndex? {n : Nat} {t : TypeRef} (h : ofIndex? n = some t) : t.index = n := by
  unfold ofIndex? at h
  split at h
  · cases h; rfl
  · cases h

/-- An address leads back to its reference. -/
@[simp] theorem ofAddr?_addr (t : TypeRef) : ofAddr? t.addr = some t := by
  simp [ofAddr?, addr]

end TypeRef

/-! ## Collector flags -/

/-- The collector's state of one object. -/
structure GcBits where
  /-- Reached during the current mark phase. -/
  marked : Bool
  /-- Survived into the old generation. -/
  old : Bool
  /-- Must not be moved. -/
  pinned : Bool
  /-- Already queued by the write barrier since the last collection. -/
  remembered : Bool
  deriving DecidableEq, Repr

namespace GcBits

/-- No flag set: the state of a new object. -/
def none : GcBits := ⟨false, false, false, false⟩

/-- The flags as a number below sixteen. -/
def toNat (g : GcBits) : Nat :=
  g.marked.toNat + 2 * g.old.toNat + 4 * g.pinned.toNat + 8 * g.remembered.toNat

/-- The flags in the four low bits of a number. -/
def ofNat (n : Nat) : GcBits where
  marked := n % 2 = 1
  old := n / 2 % 2 = 1
  pinned := n / 4 % 2 = 1
  remembered := n / 8 % 2 = 1

theorem toNat_lt (g : GcBits) : g.toNat < 16 := by
  cases g with
  | mk a b c d => cases a <;> cases b <;> cases c <;> cases d <;> decide

@[simp] theorem ofNat_toNat (g : GcBits) : ofNat g.toNat = g := by
  cases g with
  | mk a b c d => cases a <;> cases b <;> cases c <;> cases d <;> decide

/-- The names of the flags that are set. -/
def names (g : GcBits) : List String :=
  [(g.marked, "MARKED"), (g.old, "OLD"), (g.pinned, "PINNED"), (g.remembered, "REMEMBERED")].filterMap
    fun (set, name) => if set then some name else Option.none

/-- How a set of flags is shown. -/
def debug (g : GcBits) : String :=
  "GcBits(" ++ (if g = none then "0x0" else " | ".intercalate g.names) ++ ")"

end GcBits

/-! ## Header words -/

/-- The word in front of an object's payload. -/
structure Header where
  word : Nat
  deriving DecidableEq, Repr

namespace Header

/-- The header of an object of type `t` in collector state `g`. -/
def new (t : TypeRef) (g : GcBits) : Header := ⟨t.addr + g.toNat⟩

/-- The upper part of the word: a descriptor address, if the word is a header. -/
def typeBits (h : Header) : Nat := h.word - h.word % 16

/-- The type of the object, if the word holds a descriptor address. -/
def type? (h : Header) : Option TypeRef := TypeRef.ofAddr? h.typeBits

/-- The collector state in the low part of the word. -/
def gc (h : Header) : GcBits := GcBits.ofNat (h.word % 16)

/-- The same type with another collector state. -/
def withGc (h : Header) (g : GcBits) : Header := ⟨h.typeBits + g.toNat⟩

/-- How a header is shown. -/
def debug (h : Header) : String :=
  "Header \x7b type_bits: " ++ hex h.typeBits ++ ", gc: " ++ h.gc.debug ++ " \x7d"

theorem typeBits_new (t : TypeRef) (g : GcBits) : (new t g).typeBits = t.addr := by
  have := g.toNat_lt
  simp only [typeBits, new, TypeRef.addr]
  omega

/-- Collector flags never disturb the type. -/
@[simp] theorem type?_new (t : TypeRef) (g : GcBits) : (new t g).type? = some t := by
  rw [type?, typeBits_new, TypeRef.ofAddr?_addr]

@[simp] theorem gc_new (t : TypeRef) (g : GcBits) : (new t g).gc = g := by
  have h := g.toNat_lt
  have e : (t.addr + g.toNat) % 16 = g.toNat := by simp only [TypeRef.addr]; omega
  simp only [gc, new, e, GcBits.ofNat_toNat]

theorem typeBits_withGc (h : Header) (g : GcBits) : (h.withGc g).typeBits = h.typeBits := by
  have := g.toNat_lt
  simp only [typeBits, withGc]
  omega

@[simp] theorem type?_withGc (h : Header) (g : GcBits) : (h.withGc g).type? = h.type? := by
  rw [type?, type?, typeBits_withGc]

@[simp] theorem gc_withGc (h : Header) (g : GcBits) : (h.withGc g).gc = g := by
  have hg := g.toNat_lt
  have e : (h.typeBits + g.toNat) % 16 = g.toNat := by simp only [typeBits]; omega
  simp only [gc, withGc, e, GcBits.ofNat_toNat]

/-- Changing the flags of a fresh header is the same as making it with the other flags. -/
@[simp] theorem withGc_new (t : TypeRef) (g g' : GcBits) : (new t g).withGc g' = new t g' := by
  rw [withGc, typeBits_new, new]

end Header

end TypedHeap
