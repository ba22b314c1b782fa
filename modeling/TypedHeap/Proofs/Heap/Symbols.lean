import TypedHeap.Proofs.Heap.Steps
import TypedHeap.Proofs.Scalar

/-!
# Symbols in a heap

Of all steps only one gives a key to a symbol, and no step takes a key away.

Main results: `Step.symbols`, `Trail.symbols`.
-/

namespace TypedHeap.Heap

variable {h h' : Heap} {v w : Value} {t : TypeRef} {d : Descriptor} {n k extra : Nat} {S : Value → Nat → Prop}

@[simp] theorem putWord_symbols : (h.putWord v k n).symbols = h.symbols := put_symbols

@[simp] theorem putWords_symbols {ns : List Nat} : (h.putWords v k ns).symbols = h.symbols := by
  induction ns generalizing h k with
  | nil => rfl
  | cons n ns ih => rw [putWords, ih, putWord_symbols]

@[simp] theorem reserved_symbols {stop : Nat} : (h.reserved stop).symbols = h.symbols := by
  unfold reserved
  split <;> rfl

@[simp] theorem allocated_symbols : (h.allocated v d extra n).symbols = h.symbols := by
  have hplaced : (h.placed v d.ref n).symbols = h.symbols := by
    rw [placed, setHeader, putHeader_symbols]
    exact reserved_symbols
  unfold allocated
  split
  · rw [putWord_symbols, hplaced]
  · exact hplaced

theorem Learns.symbols (hl : h.Learns h') : h'.symbols = h.symbols := by
  obtain ⟨r, -, rfl⟩ := hl
  rfl

/-- A step keeps the keys of symbols. -/
theorem Step.symbols (step : Step S h h') (hs : h.Sound) : h.symbols.Grows h'.symbols := by
  have hsame {h' : Heap} (heq : h'.symbols = h.symbols) : h.symbols.Grows h'.symbols := heq ▸ .refl _
  have hguarded {h₁ : Heap} {p c : Value} (hs₁ : h₁.Sound) (heq : h₁.symbols = h.symbols) :=
    hsame ((symbols_guarded hs₁.arena p c).trans heq)
  cases step with
  | learns learns => exact hsame learns.symbols
  | symbol s => exact (SymbolTable.intern_meets s h.symbols).kept
  | vectorSlot type index allowed => exact hguarded (hs.put_item type index _) put_symbols
  | fieldRef type layout field outside child isa outer allowed =>
    exact hguarded (hs.put_fieldRef type layout field outside (isa_eq_ok.2 ⟨_, child, isa⟩)) put_symbols
  | arrayMoved array ndims unshared body room sole =>
    exact hguarded (hs.moved array ndims body room sole) (by simp [putBuffer])
  | elementRef array index storage child isa allowed =>
    exact hguarded (hs.put_reference array index storage (isa_eq_ok.2 ⟨_, child, isa⟩)) put_symbols
  | allocated => exact hsame allocated_symbols
  | arrayBuilt => exact hsame putWords_symbols
  | arrayViewed => exact hsame (by simp [putView, putArray])
  | arrayLength => exact hsame (by simp [putLength])
  | _ => exact hsame (by simp)

theorem Move.symbols (move : Move S h h') (hs : h.Sound) : h.symbols.Grows h'.symbols := by
  cases move with
  | step step => exact step.symbols hs
  | flags _ symbols =>
    rw [symbols]
    exact .refl _

theorem Trail.symbols (trail : Trail S h h') (hs : h.Sound) : h.symbols.Grows h'.symbols :=
  trail.preserves (P := fun h' => h.symbols.Grows h'.symbols) hs (fun move hs hg => hg.trans (move.symbols hs)) (.refl _)

/-- There are fewer names of builtin types than keys, and the first key is the one of such a name. -/
theorem builtin_names : (SymbolTable.ofList Builtin.names).symbols.size ≤ SymbolTable.capacity ∧
    ((SymbolTable.ofList Builtin.names).find? 0).isSome := by
  decide +kernel

end TypedHeap.Heap
