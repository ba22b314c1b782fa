import TypedHeap.Action

/-!
# Symbols

A `Symbol` is a name: two symbols are equal when their texts are, and they are ordered by text.
Stored in memory, a symbol takes four bytes, the key under which a `SymbolTable` lists its text.

* `SymbolTable.intern`: the key of a symbol, listing the symbol first if it is new.
* `SymbolTable.find?`: the symbol behind a key.

Main results: `SymbolTable.find?_of_key?`, `SymbolTable.find?_push_of_lt`.
-/

namespace TypedHeap

/-- A name. -/
structure Symbol where
  text : String
  deriving DecidableEq, Repr

namespace Symbol

instance : Coe String Symbol := ⟨Symbol.mk⟩

/-- How a symbol is shown where its being a symbol matters. -/
def debug (s : Symbol) : String := ":" ++ s.text

/-- Symbols are ordered by their texts, character by character. -/
def le (a b : Symbol) : Bool := a.text ≤ b.text

end Symbol

/-- The symbols that have a key, in the order in which they got it; the keys count from zero. -/
structure SymbolTable where
  symbols : Array Symbol
  deriving DecidableEq, Repr

namespace SymbolTable

/-- How many keys there are. The largest number of 32 bits is not one. -/
def capacity : Nat := 0xffffffff

/-- The key of a symbol that has one. -/
def key? (t : SymbolTable) (s : Symbol) : Option Nat := t.symbols.idxOf? s

/-- The symbol behind a key. -/
def find? (t : SymbolTable) (key : Nat) : Option Symbol := t.symbols[key]?

/-- The table with one more symbol. -/
def push (t : SymbolTable) (s : Symbol) : SymbolTable := ⟨t.symbols.push s⟩

/-- The key of a symbol, which is listed under the next free key if it has none. -/
def intern (s : Symbol) : Action SymbolTable Nat := do
  let t ← get
  match t.key? s with
  | some key => return key
  | none =>
    if t.symbols.size < capacity then
      set (t.push s)
      return t.symbols.size
    else throw (.invalidArgument "symbol table is full")

/-- A table that lists the given symbols, each once, in the order of their first occurrence. -/
def ofList (names : List Symbol) : SymbolTable :=
  names.foldl (fun t s => if t.symbols.contains s then t else t.push s) ⟨#[]⟩

/-- A key leads back to its symbol. -/
theorem find?_of_key? {t : SymbolTable} {s : Symbol} {key : Nat} (h : t.key? s = some key) :
    t.find? key = some s := by
  rcases t with ⟨⟨l⟩⟩
  simp only [key?, List.idxOf?_toArray, List.idxOf?, find?] at h ⊢
  obtain ⟨hlt, heq, -⟩ := List.findIdx?_eq_some_iff_getElem.1 h
  simp only [List.getElem?_toArray, List.getElem?_eq_getElem hlt]
  simpa using heq

/-- Symbols that are listed keep their keys when another one is added. -/
theorem find?_push_of_lt {t : SymbolTable} {key : Nat} (s : Symbol) (h : key < t.symbols.size) :
    (t.push s).find? key = t.find? key := by
  simp [find?, push, Array.getElem?_push, Nat.ne_of_lt h]

end SymbolTable

end TypedHeap
