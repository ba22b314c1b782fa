import TypedHeap.Proofs.Scalar

/-!
# Scalars and their bytes determine each other

No symbol has two keys, so the bytes of a scalar are the only ones that stand for it, and it is known which
bytes stand for none.

* `SymbolTable.Distinct`: no symbol is listed twice. Every table that listing symbols can lead to is such.
* `ScalarKind.Refuses`: the numbers that stand for no scalar of a kind.
* `ScalarKind.Exact`: writing and reading a kind of scalars undo each other.

Main results: `SymbolTable.distinct_listing`, `ScalarKind.ofWord_error_iff`, `ScalarKind.toWord_of_ofWord`,
`ScalarKind.codec_exact`.
-/

namespace TypedHeap

open TypedHeap.Action (runOn_bind_ok)

/-! ## One key for each symbol -/

namespace SymbolTable

variable {t : SymbolTable} {s : Symbol} {key : Nat}

/-- No symbol is listed twice. -/
def Distinct (t : SymbolTable) : Prop := ∀ i j s, t.find? i = some s → t.find? j = some s → i = j

/-- A symbol without a key is not listed. -/
theorem find?_ne_of_key? (h : t.key? s = none) (i : Nat) : t.find? i ≠ some s := by
  intro hi
  obtain ⟨hlt, heq⟩ := Array.getElem?_eq_some_iff.1 hi
  exact Array.idxOf?_eq_none_iff.1 h (heq ▸ Array.getElem_mem hlt)

theorem Distinct.key?_of_find? (ht : t.Distinct) (h : t.find? key = some s) : t.key? s = some key := by
  cases hkey : t.key? s with
  | none => exact absurd h (find?_ne_of_key? hkey key)
  | some j => rw [ht j key s (find?_of_key? hkey) h]

theorem Distinct.push (ht : t.Distinct) (h : t.key? s = none) : (t.push s).Distinct := by
  -- A listed symbol is an old one under its old key, or the new one under the last key.
  have hcases : ∀ i s', (t.push s).find? i = some s' →
      t.find? i = some s' ∨ i = t.symbols.size ∧ s' = s := by
    intro i s' hi
    rcases Nat.lt_trichotomy i t.symbols.size with hlt | rfl | hgt
    · exact .inl (find?_push_of_lt s hlt ▸ hi)
    · exact .inr ⟨rfl, Option.some.inj (hi.symm.trans (find?_push_size t s))⟩
    · have := lt_of_find? hi
      rw [SymbolTable.push, Array.size_push] at this
      omega
  intro i j s' hi hj
  rcases hcases i s' hi with hold | ⟨rfl, rfl⟩
  · rcases hcases j s' hj with hold' | ⟨-, rfl⟩
    · exact ht i j s' hold hold'
    · exact absurd hold (find?_ne_of_key? h i)
  · rcases hcases j s' hj with hold' | ⟨rfl, -⟩
    · exact absurd hold' (find?_ne_of_key? h j)
    · rfl

/-- Listing a symbol that has a key changes nothing. -/
theorem runOn_intern_listed (h : t.key? s = some key) : (intern s).runOn t = (.ok key, t) := by
  unfold intern
  rw [runOn_bind_ok (Action.runOn_get t), h]
  rfl

/-- A symbol is listed without being listed twice. -/
theorem Distinct.intern (ht : t.Distinct) (s : Symbol) : ((intern s).runOn t).2.Distinct := by
  cases hkey : t.key? s with
  | some key =>
    rw [runOn_intern_listed hkey]
    exact ht
  | none =>
    unfold SymbolTable.intern
    rw [runOn_bind_ok (Action.runOn_get t), hkey]
    dsimp only
    split
    · exact ht.push hkey
    · exact ht

theorem distinct_listing (ss : List Symbol) (ht : t.Distinct) : (t.listing ss).Distinct := by
  induction ss generalizing t with
  | nil => exact ht
  | cons s ss ih => exact ih (ht.intern s)

/-- Every table that listing symbols leads to, from none on. -/
theorem lawful_listing (ss : List Symbol) :
    (listing ⟨#[]⟩ ss).Distinct ∧ (listing ⟨#[]⟩ ss).Bounded :=
  ⟨distinct_listing ss fun _ _ _ => nofun, (grows_listing ⟨#[]⟩ ss).bounded (Nat.zero_le _)⟩

end SymbolTable

/-! ## Words -/

namespace ScalarKind

open SymbolTable LittleEndian

variable {t : SymbolTable} {k : ScalarKind}

/-- The numbers that stand for no scalar of a kind: no truth value is above one, no character is a surrogate
or above the last one, no symbol is unlisted and no type is zero. -/
def Refuses (t : SymbolTable) : ScalarKind → Nat → Prop
  | .bool, n => 1 < n
  | .char, n => (0xD800 ≤ n ∧ n ≤ 0xDFFF) ∨ 0x10FFFF < n
  | .symbol, n => t.find? n = none
  | .dataType, n => n = 0
  | _, _ => False

theorem not_error {α : Type} (x : α) : ¬∃ e, (.ok x : Except Error α) = .error e := by
  rintro ⟨e, h⟩
  cases h

/-- The numbers that stand for no scalar are those that are refused. -/
theorem ofWord_error_iff {n : Nat} (hn : n < count k.size) :
    (∃ e, k.ofWord t n = .error e) ↔ k.Refuses t n := by
  cases k with
  | bool =>
    simp only [ofWord, Refuses]
    split
    · exact iff_of_false (not_error false) (by omega)
    · split
      · exact iff_of_false (not_error true) (by omega)
      · exact iff_of_true ⟨_, rfl⟩ (by omega)
  | char =>
    show _ ↔ (0xD800 ≤ n ∧ n ≤ 0xDFFF) ∨ 0x10FFFF < n
    by_cases hvalid : n.isValidChar
    · have hword : ofWord t .char n = .ok (Char.ofNatAux n hvalid) := dif_pos hvalid
      unfold Nat.isValidChar at hvalid
      exact iff_of_false (hword ▸ not_error _) (by omega)
    · have hword : ofWord t .char n = .error _ := dif_neg hvalid
      unfold Nat.isValidChar at hvalid
      exact iff_of_true ⟨_, hword⟩ (by omega)
  | symbol =>
    simp only [ofWord, Refuses]
    split
    · rename_i s hs
      exact iff_of_false (not_error s) (hs ▸ Option.some_ne_none s)
    · rename_i hs
      exact iff_of_true ⟨_, rfl⟩ hs
  | dataType =>
    have hlt : n < 0x100000000 := hn
    simp only [ofWord, Refuses, TypeRef.ofIndex?]
    by_cases hpos : 0 < n
    · rw [dif_pos ⟨hpos, hlt⟩]
      exact iff_of_false (not_error _) (by omega)
    · rw [dif_neg fun h => hpos h.1]
      exact iff_of_true ⟨_, rfl⟩ (by omega)
  | _ => exact iff_of_false (not_error _) id

/-- A scalar is stored as the number that stood for it. -/
theorem toWord_of_ofWord (ht : t.Distinct) {n : Nat} {x : k.Carrier} (hn : n < count k.size)
    (h : k.ofWord t n = .ok x) : (k.toWord x).runOn t = (.ok n, t) := by
  cases k with
  | bool =>
    simp only [ofWord] at h
    split at h
    · cases h
      subst n
      rfl
    · split at h
      · cases h
        subst n
        rfl
      · cases h
  | char =>
    by_cases hvalid : n.isValidChar
    · have hword : ofWord t .char n = .ok (Char.ofNatAux n hvalid) := dif_pos hvalid
      cases hword.symm.trans h
      rfl
    · have hword : ofWord t .char n = .error _ := dif_neg hvalid
      cases hword.symm.trans h
  | symbol =>
    simp only [ofWord] at h
    split at h
    · cases h
      rename_i hs
      exact runOn_intern_listed (ht.key?_of_find? hs)
    · cases h
  | dataType =>
    simp only [ofWord] at h
    split at h
    · cases h
      rename_i hindex
      rw [← TypeRef.index_of_ofIndex? hindex]
      rfl
    · cases h
  | int8 | uint8 =>
    cases h
    simp [toWord, Action.runOn_pure, UInt8.toNat_ofNat_of_lt' hn]
  | int16 | uint16 =>
    cases h
    simp [toWord, Action.runOn_pure, UInt16.toNat_ofNat_of_lt' hn]
  | int32 | uint32 | float32 =>
    cases h
    simp [toWord, Action.runOn_pure, UInt32.toNat_ofNat_of_lt' hn]
  | int64 | uint64 | float64 =>
    cases h
    simp [toWord, Action.runOn_pure, UInt64.toNat_ofNat_of_lt' hn]

/-! ## Bytes -/

/-- The number in the first bytes of a run. -/
theorem ofBytes_take_lt {bytes : List UInt8} (h : k.size ≤ bytes.length) :
    ofBytes (bytes.take k.size) < count k.size := by
  have hlt := ofBytes_lt (bytes.take k.size)
  rwa [List.length_take_of_le h] at hlt

/-- Bytes that stand for a scalar are the ones that are written for it. -/
theorem encode_of_decode (ht : t.Distinct) {bytes : List UInt8} {x : k.Carrier}
    (h : k.decode t bytes = .ok x) :
    k.size ≤ bytes.length ∧ (k.encode x).runOn t = (.ok (bytes.take k.size), t) := by
  unfold decode at h
  split at h
  · cases h
  · rename_i hlength
    have hle : k.size ≤ bytes.length := Nat.le_of_not_lt hlength
    refine ⟨hle, ?_⟩
    unfold encode
    rw [runOn_bind_ok (toWord_of_ofWord ht (ofBytes_take_lt hle) h), Action.runOn_pure]
    have hbytes := toBytes_ofBytes (bytes.take k.size)
    rw [List.length_take_of_le hle] at hbytes
    rw [hbytes]

/-- Bytes stand for no scalar if they are too few or the number in them is refused. -/
theorem decode_error_iff {bytes : List UInt8} :
    (∃ e, k.decode t bytes = .error e) ↔
      bytes.length < k.size ∨ k.Refuses t (ofBytes (bytes.take k.size)) := by
  unfold decode
  by_cases hlength : bytes.length < k.size
  · rw [if_pos hlength]
    exact ⟨fun _ => .inl hlength, fun _ => ⟨_, rfl⟩⟩
  · rw [if_neg hlength, ofWord_error_iff (ofBytes_take_lt (Nat.le_of_not_lt hlength))]
    exact (or_iff_right hlength).symm

/-- Only the bytes that stand for a scalar are looked at. -/
theorem decode_append {bytes : List UInt8} (h : bytes.length = k.size) (rest : List UInt8) :
    k.decode t (bytes ++ rest) = k.decode t bytes := by
  unfold decode
  rw [if_neg (by rw [List.length_append]; omega), if_neg (by omega), ← h, List.take_left, List.take_length]

/-- Only a full table keeps a scalar from having bytes, and they are read back in the table they leave. -/
theorem runOn_encode (hb : t.Bounded) {x : k.Carrier} (hx : t.AdmitsAll (k.symbols x)) :
    ∃ bs, (k.encode x).runOn t = (.ok bs, t.listing (k.symbols x)) ∧ bs.length = k.size ∧
      k.decode (t.listing (k.symbols x)) bs = .ok x := by
  have hfails := encode_fails hx
  have hanswer := (encode_meets hb k x).answer
  have htable := runOn_encode_symbols k x t
  rcases hrun : (k.encode x).runOn t with ⟨e | bs, t'⟩
  · rw [Action.Fails, hrun] at hfails
    exact (hfails e rfl).elim
  · rw [hrun] at hanswer htable
    obtain rfl : t' = t.listing (k.symbols x) := htable
    obtain ⟨hlength, hdecode⟩ := hanswer bs rfl
    exact ⟨bs, rfl, hlength, hdecode⟩

/-- Writing and reading a kind of scalars undo each other. -/
structure Exact (t : SymbolTable) (k : ScalarKind) : Prop where
  /-- Over any bytes that are enough, writing changes the first ones only, and the scalar is read back. -/
  written : ∀ x, t.AdmitsAll (k.symbols x) →
    ∃ bs, (k.encode x).runOn t = (.ok bs, t.listing (k.symbols x)) ∧ bs.length = k.size ∧
      ∀ buffer, k.size ≤ buffer.length →
        (overwrite bs buffer).length = buffer.length ∧
        (overwrite bs buffer).drop k.size = buffer.drop k.size ∧
        k.decode (t.listing (k.symbols x)) (overwrite bs buffer) = .ok x
  /-- What is read is written back as the bytes it was read from. -/
  reproduced : ∀ bytes x, k.decode t bytes = .ok x →
    k.size ≤ bytes.length ∧ (k.encode x).runOn t = (.ok (bytes.take k.size), t)
  /-- Different bytes stand for different scalars. -/
  unique : ∀ bytes bytes' x, k.decode t bytes = .ok x → k.decode t bytes' = .ok x →
    bytes.take k.size = bytes'.take k.size
  /-- Nothing is read from too few bytes or from a number that stands for no scalar. All else is read. -/
  refused : ∀ bytes, (∃ e, k.decode t bytes = .error e) ↔
    bytes.length < k.size ∨ k.Refuses t (ofBytes (bytes.take k.size))

/-- In every state that listing symbols has left the table in, the codec of each kind is exact in both
directions. -/
theorem codec_exact (ss : List Symbol) (k : ScalarKind) : k.Exact (listing ⟨#[]⟩ ss) := by
  obtain ⟨hd, hb⟩ := lawful_listing ss
  refine ⟨fun x hx => ?_, fun _ _ => encode_of_decode hd, fun bytes bytes' x h h' => ?_, fun _ => decode_error_iff⟩
  · obtain ⟨bs, hrun, hlength, hdecode⟩ := runOn_encode hb hx
    refine ⟨bs, hrun, hlength, fun buffer hbuffer => ⟨?_, ?_, ?_⟩⟩
    · rw [overwrite, List.length_append, List.length_drop]
      omega
    · rw [overwrite, ← hlength, List.drop_left]
    · rw [overwrite, decode_append hlength, hdecode]
  · have hrun := (encode_of_decode hd h).2
    have hrun' := (encode_of_decode hd h').2
    exact Except.ok.inj (congrArg Prod.fst (hrun.symm.trans hrun'))

end ScalarKind

end TypedHeap
