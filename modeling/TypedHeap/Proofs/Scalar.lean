import TypedHeap.Proofs.Failure
import TypedHeap.Scalar

/-!
# Scalars there and back

A scalar is read back from its bytes in the symbol table that making the bytes has left, and in every table
that grows out of that one.

* `SymbolTable.Bounded`: keys are numbers of 32 bits.
* `SymbolTable.Grows`: listed symbols keep their keys.
* `SymbolTable.Admits`, `SymbolTable.listing`: symbols that can be listed, and the table that lists them.

Main results: `ScalarKind.encode_meets`, `ScalarKind.encode_fails`, `ScalarKind.decode_grows`.
-/

namespace TypedHeap

open TypedHeap.Action (Meets Fails)

/-! ## Keys -/

namespace SymbolTable

variable {t t' t'' : SymbolTable} {s : Symbol} {ss : List Symbol}

/-- There are no more symbols than keys. -/
def Bounded (t : SymbolTable) : Prop := t.symbols.size ≤ capacity

/-- Keys go on to stand for their symbols. -/
structure Grows (t t' : SymbolTable) : Prop where
  find? : ∀ {key s}, t.find? key = some s → t'.find? key = some s
  bounded : t.Bounded → t'.Bounded

theorem Grows.refl (t : SymbolTable) : t.Grows t := ⟨fun h => h, fun h => h⟩

theorem Grows.trans (h : t.Grows t') (h' : t'.Grows t'') : t.Grows t'' :=
  ⟨fun hs => h'.find? (h.find? hs), fun ht => h'.bounded (h.bounded ht)⟩

instance : Std.Refl Grows := ⟨Grows.refl⟩

instance : Trans Grows Grows Grows := ⟨Grows.trans⟩

/-- There is a key for a symbol: one that it has, or a free one. -/
def Admits (t : SymbolTable) (s : Symbol) : Prop := (t.key? s).isSome ∨ t.symbols.size < capacity

theorem lt_of_find? {key : Nat} (h : t.find? key = some s) : key < t.symbols.size :=
  (Array.getElem?_eq_some_iff.1 h).1

/-- A table never gets shorter. -/
theorem Grows.size_le (h : t.Grows t') : t.symbols.size ≤ t'.symbols.size := by
  rcases Nat.eq_zero_or_pos t.symbols.size with hzero | hpos
  · omega
  · obtain ⟨s, hs⟩ : ∃ s, t.find? (t.symbols.size - 1) = some s :=
      ⟨_, Array.getElem?_eq_getElem (by omega)⟩
    have := lt_of_find? (h.find? hs)
    omega

theorem grows_push (s : Symbol) (hsize : t.symbols.size < capacity) : t.Grows (t.push s) where
  find? hs := by rw [find?_push_of_lt s (lt_of_find? hs), hs]
  bounded _ := by
    rw [Bounded, push, Array.size_push]
    exact hsize

theorem find?_push_size (t : SymbolTable) (s : Symbol) : (t.push s).find? t.symbols.size = some s := by
  simp [find?, push]

/-- A symbol is found under the key that it gets. -/
theorem intern_meets (s : Symbol) (t : SymbolTable) :
    Meets Grows (intern s) t fun key t' => t'.find? key = some s := by
  unfold intern
  refine Meets.get_bind ?_
  cases hkey : t.key? s with
  | some key => exact Meets.pure (find?_of_key? hkey)
  | none =>
    refine Meets.ite (fun hsize => ?_) fun _ => Meets.throw _
    have hset : (do set (t.push s); return t.symbols.size : Action SymbolTable Nat).runOn t =
        (.ok t.symbols.size, t.push s) := rfl
    refine .of_runOn hset (grows_push s hsize) fun key heq => ?_
    cases heq
    exact find?_push_size t s

theorem intern_fails (h : t.Admits s) : Fails (intern s) t fun _ => False := by
  unfold intern
  refine Fails.get_bind ?_
  cases hkey : t.key? s with
  | some key => exact Fails.pure
  | none =>
    have hsize : t.symbols.size < capacity := h.resolve_left (by rw [hkey]; nofun)
    dsimp only
    rw [if_pos hsize]
    exact Fails.of_runOn (r := .ok t.symbols.size) rfl .ok

/-- The table after symbols were listed, one after the other. -/
def listing (t : SymbolTable) (ss : List Symbol) : SymbolTable :=
  ss.foldl (fun t s => ((intern s).runOn t).2) t

/-- There is a key for each of some symbols. -/
def AdmitsAll (t : SymbolTable) : List Symbol → Prop
  | [] => True
  | s :: ss => t.Admits s ∧ (t.listing [s]).AdmitsAll ss

theorem listing_append (t : SymbolTable) (ss ss' : List Symbol) :
    t.listing (ss ++ ss') = (t.listing ss).listing ss' :=
  List.foldl_append

theorem admitsAll_append {ss ss' : List Symbol} :
    t.AdmitsAll (ss ++ ss') ↔ t.AdmitsAll ss ∧ (t.listing ss).AdmitsAll ss' := by
  induction ss generalizing t with
  | nil => exact (and_iff_right trivial).symm
  | cons s ss ih =>
    show t.Admits s ∧ (t.listing [s]).AdmitsAll (ss ++ ss') ↔
      (t.Admits s ∧ (t.listing [s]).AdmitsAll ss) ∧ ((t.listing [s]).listing ss).AdmitsAll ss'
    rw [ih, and_assoc]

theorem grows_listing (t : SymbolTable) (ss : List Symbol) : t.Grows (t.listing ss) := by
  induction ss generalizing t with
  | nil => exact .refl t
  | cons s ss ih => exact (intern_meets s t).kept.trans (ih _)

end SymbolTable

/-! ## Words and bytes -/

namespace ScalarKind

open SymbolTable

variable {t t' : SymbolTable} {k : ScalarKind}

/-- The symbols that get a key when the bytes of a scalar are made. -/
def symbols : (k : ScalarKind) → k.Carrier → List Symbol
  | .symbol, s => [s]
  | _, _ => []

/-- The number for a scalar fits in its bytes and stands for it. -/
theorem toWord_meets (ht : t.Bounded) (k : ScalarKind) (x : k.Carrier) :
    Meets Grows (k.toWord x) t fun w t' => w < LittleEndian.count k.size ∧ k.ofWord t' w = .ok x := by
  cases k with
  | symbol =>
    refine (intern_meets x t).mono fun key t' hgrows hkey => ⟨?_, ?_⟩
    · have hlt := Nat.lt_of_lt_of_le (lt_of_find? hkey) (hgrows.bounded ht)
      exact Nat.lt_trans hlt (by decide)
    · simp only [ofWord, hkey]
  | bool => cases x <;> exact Meets.pure ⟨by decide, rfl⟩
  | char =>
    refine Meets.pure ⟨Nat.lt_of_lt_of_le x.val.toNat_lt (by decide), ?_⟩
    exact dif_pos x.valid
  | dataType =>
    refine Meets.pure ⟨x.lt, ?_⟩
    have hindex : TypeRef.ofIndex? x.index = some x := dif_pos ⟨x.pos, x.lt⟩
    simp only [ofWord, hindex]
  | int8 => exact Meets.pure ⟨x.toUInt8.toNat_lt, by simp [ofWord]⟩
  | uint8 => exact Meets.pure ⟨x.toNat_lt, by simp [ofWord]⟩
  | int16 => exact Meets.pure ⟨x.toUInt16.toNat_lt, by simp [ofWord]⟩
  | uint16 => exact Meets.pure ⟨x.toNat_lt, by simp [ofWord]⟩
  | int32 => exact Meets.pure ⟨x.toUInt32.toNat_lt, by simp [ofWord]⟩
  | uint32 | float32 => exact Meets.pure ⟨x.toNat_lt, by simp [ofWord]⟩
  | int64 => exact Meets.pure ⟨x.toUInt64.toNat_lt, by simp [ofWord]⟩
  | uint64 | float64 => exact Meets.pure ⟨x.toNat_lt, by simp [ofWord]⟩

/-- A scalar is read back from its bytes. -/
theorem encode_meets (ht : t.Bounded) (k : ScalarKind) (x : k.Carrier) :
    Meets Grows (k.encode x) t fun bs t' => bs.length = k.size ∧ k.decode t' bs = .ok x := by
  unfold encode
  refine Meets.bind (toWord_meets ht k x) fun w t' _ hw => Meets.pure ⟨LittleEndian.length_toBytes _ _, ?_⟩
  obtain ⟨hlt, hword⟩ := hw
  have hlength := LittleEndian.length_toBytes k.size w
  rw [decode, if_neg (by omega), List.take_of_length_le (by omega), LittleEndian.ofBytes_toBytes_of_lt hlt, hword]

/-- Nothing but a missing key keeps a scalar from having bytes. -/
theorem encode_fails {x : k.Carrier} (hx : t.AdmitsAll (k.symbols x)) : Fails (k.encode x) t fun _ => False := by
  have hword : Fails (k.toWord x) t fun _ => False := by
    cases k with
    | symbol => exact intern_fails hx.1
    | _ => exact Fails.pure
  exact Fails.bind_ran hword fun _ _ _ => Fails.pure

theorem runOn_encode_symbols (k : ScalarKind) (x : k.Carrier) (t : SymbolTable) :
    ((k.encode x).runOn t).2 = t.listing (k.symbols x) := by
  cases k with
  | symbol =>
    have hbind : (encode .symbol x).runOn t =
        (intern x >>= fun key => pure (LittleEndian.toBytes 4 key) : Action SymbolTable _).runOn t := rfl
    rw [hbind, Action.runOn_bind]
    show _ = ((intern x).runOn t).2
    rcases (intern x).runOn t with ⟨_ | _, t'⟩ <;> rfl
  | _ => rfl

/-- Bytes that were made of a scalar stand for it. -/
theorem decode_of_encode {x : k.Carrier} {bs : List UInt8} (hrun : (k.encode x).runOn t = (.ok bs, t'))
    (hbounded : t'.Bounded) : k.decode t' bs = .ok x := by
  have htable : t' = t.listing (k.symbols x) := by
    rw [← runOn_encode_symbols k x t, hrun]
  have hgrows : t.Grows t' := htable ▸ grows_listing t _
  have hanswer := (encode_meets (Nat.le_trans hgrows.size_le hbounded) k x).answer
  rw [hrun] at hanswer
  exact (hanswer bs rfl).2

/-- Bytes go on to stand for the same scalar. -/
theorem decode_grows {x : k.Carrier} {bs : List UInt8} (hgrows : t.Grows t') (h : k.decode t bs = .ok x) :
    k.decode t' bs = .ok x := by
  unfold decode at h ⊢
  split at h
  · cases h
  · rename_i hlength
    rw [if_neg hlength]
    cases k with
    | symbol =>
      simp only [ofWord] at h ⊢
      split at h
      · rename_i s hs
        cases h
        rw [hgrows.find? hs]
      · cases h
    | _ => exact h

end ScalarKind

end TypedHeap
