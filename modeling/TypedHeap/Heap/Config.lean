/-!
# Heap sizes

How much memory a heap starts with and how much it may ever have. Both may be given as text settings:
decimal numbers, perhaps with a plus sign in front and blanks around them. A setting that is missing or
is not a number of 64 bits keeps its default.

* `Decimal.read?`: the number that a text denotes.
* `HeapConfig`, `HeapConfig.ofSettings`: the sizes of a heap, and the sizes that settings ask for.
-/

namespace TypedHeap

/-! ## Decimal numbers -/

namespace Decimal

/-- The characters with the Unicode property `White_Space`. -/
def isBlank (c : Char) : Bool :=
  let n := c.val.toNat
  (9 ≤ n && n ≤ 13) || n == 0x20 || n == 0x85 || n == 0xa0 || n == 0x1680 ||
    (0x2000 ≤ n && n ≤ 0x200a) || n == 0x2028 || n == 0x2029 || n == 0x202f || n == 0x205f ||
    n == 0x3000

/-- A text without the blanks at its two ends. -/
def trim (s : List Char) : List Char :=
  ((s.dropWhile isBlank).reverse.dropWhile isBlank).reverse

/-- The number that decimal digits denote, read behind the digits already worth `n`. -/
def digitsFrom : Nat → List Char → Option Nat
  | n, [] => some n
  | n, c :: cs => if c.isDigit then digitsFrom (10 * n + (c.toNat - 48)) cs else none

/-- The number below `bound` that a text denotes: at least one digit, at most one plus sign. -/
def read? (bound : Nat) (s : List Char) : Option Nat :=
  let digits := match s with
    | '+' :: rest => rest
    | other => other
  if digits.isEmpty then none
  else (digitsFrom 0 digits).filter (· < bound)

end Decimal

/-! ## Sizes -/

/-- The sizes of a heap, in bytes. -/
structure HeapConfig where
  initialBytes : UInt64 := 65536
  maxBytes : UInt64 := 268435456
  deriving DecidableEq, Repr

namespace HeapConfig

/-- The number that a setting gives, blanks around it apart. -/
def setting? (text : String) : Option UInt64 :=
  (Decimal.read? 0x10000000000000000 (Decimal.trim text.toList)).map UInt64.ofNat

/-- The sizes that two text settings ask for. The heap never starts above its limit. -/
def ofSettings (initial max : Option String) : HeapConfig :=
  let defaults : HeapConfig := {}
  let initialBytes := (initial.bind setting?).getD defaults.initialBytes
  let maxBytes := (max.bind setting?).getD defaults.maxBytes
  { initialBytes := Min.min initialBytes maxBytes, maxBytes }

/-- The same sizes under another limit. -/
def withMaxBytes (c : HeapConfig) (n : UInt64) : HeapConfig :=
  { initialBytes := Min.min c.initialBytes n, maxBytes := n }

end HeapConfig

end TypedHeap
