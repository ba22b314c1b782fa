import TypedHeap.Proofs.Heap.Payloads
import TypedHeap.Proofs.Heap.Questions
import TypedHeap.Proofs.Heap.Values
import TypedHeap.Proofs.Types.Join

/-!
# One object beside the others

Of two heaps one may have an object and symbols that the other one does not have. Whoever asks about anything else
gets the same answer from both, and the same error.

* `Heap.Beside`: the same objects with the same contents, but for one.
* `Beside.typeOf_eq`, `info_eq`, `read_eq`, `getScalar_eq`: the same answers.
* `Beside.written`, `put`: both heaps are written to.
* `Heap.EndBeside`: two runs with the same outcome.

Main results: `Beside.getScalar_eq`, `Beside.written`.
-/

namespace TypedHeap

open TypedHeap.Action (runOn_bind_ok runOn_bind_error runOn_look)
open Heap ArrayObject

variable {h h' k k' : Heap} {a b v w : Value} {f : ArrayInfo} {t u : TypeRef} {i n : Nat} {m : ScalarKind}
  {S S' : Value → Nat → Prop} {bs : List UInt8}

/-- Bytes stand for the same if more symbols are listed: it is a symbol that was listed before, or the list is not
looked into. -/
theorem ScalarKind.decode_eq {table table' : SymbolTable} (hgrows : table.Grows table')
    (hlisted : m = .symbol → ∃ x, m.decode table bs = .ok x) : m.decode table' bs = m.decode table bs := by
  by_cases hm : m = .symbol
  · obtain ⟨x, hx⟩ := hlisted hm
    rw [hx, decode_grows hgrows hx]
  · unfold decode
    cases m <;> first | rfl | exact absurd rfl hm

namespace Heap

/-- What is no object has no type. -/
theorem Sound.typeOf_dead (hs : h.Sound) (hv : ¬h.Live v) :
    h.typeOf v = .error (.invalidTag v.offset .notAnObject) := by
  cases ht : h.typeOf v with
  | error err => rw [hs.typeOf_raises v err ht]
  | ok t => exact absurd (live_of_typeOf ht) hv

/-- Heaps that hold the same byte somewhere still do after the same write. -/
theorem byte_put_congr {bs : List UInt8} {j : Nat} (hend : v.offset + n + bs.length ≤ h.memory.length)
    (hend' : v.offset + n + bs.length ≤ k.memory.length) (hbyte : k.byte w j = h.byte w j) :
    (k.put v n bs).byte w j = (h.put v n bs).byte w j := by
  unfold byte at hbyte ⊢
  rw [put_memory, put_memory, Memory.get_write, Memory.get_write, hbyte]
  by_cases hin : v.offset + n ≤ w.offset + j ∧ w.offset + j < v.offset + n + bs.length
  · rw [if_pos ⟨hin.1, by omega⟩, if_pos ⟨hin.1, by omega⟩]
  · by_cases hlo : v.offset + n ≤ w.offset + j
    · rw [List.getElem?_eq_none (by omega)]
      split <;> split <;> rfl
    · rw [if_neg fun h => hlo h.1, if_neg fun h => hlo h.1]

theorem Sound.contains_scalar (hs : h.Sound) (m : ScalarKind) : h.types.contains m.type = true :=
  TypeTable.contains_iff.2 ⟨_, Layouts.descriptor_scalar hs.registry.types m⟩

theorem contains_of_typeOf (ht : h.typeOf v = .ok t) : h.types.contains t = true := (typeOf_eq_ok.1 ht).2.2.2

/-- The same objects with the same contents, but for one that only the second heap may have, and symbols that only
the second heap may have listed. -/
structure Beside (b : Value) (h h' : Heap) : Prop where
  kept : Keeps (fun _ _ => False) h h'
  only : ∀ w, h'.Live w → h.Live w ∨ w = b
  symbols : h.symbols.Grows h'.symbols

namespace Beside

theorem refl (b : Value) (h : Heap) : Beside b h h := ⟨.refl _ h, fun _ => .inl, .refl _⟩

theorem typeOf_eq (hb : Beside b h h') (hs : h.Sound) (hs' : h'.Sound) (hv : h.Live v ∨ v ≠ b) :
    h'.typeOf v = h.typeOf v := by
  by_cases hlive : h.Live v
  · obtain ⟨t, ht⟩ := hs.exists_typeOf hlive
    rw [ht, hb.kept.typeOf ht]
  · have hdead : ¬h'.Live v := fun hlive' => (hb.only v hlive').elim hlive (hv.resolve_left hlive)
    rw [hs.typeOf_dead hlive, hs'.typeOf_dead hdead]

theorem mismatch_eq (hb : Beside b h h') (ho : h.Orderly) (ht : h.types.contains t = true)
    (hu : h.types.contains u = true) : h'.types.mismatch t u = h.types.mismatch t u :=
  hb.kept.registry.types.mismatch_eq ho.types ht hu

/-- What tells about itself as an array does so in both heaps. -/
theorem info_eq (hb : Beside b h h') (ho : h.Orderly) (hs' : h'.Sound) (hne : a ≠ b) : info h' a = info h a := by
  have hs := ho.sound
  have htype := hb.typeOf_eq hs hs' (.inr hne)
  cases ht : h.typeOf a with
  | error err =>
    rw [ht] at htype
    have hfail {g : Heap} (hg : g.typeOf a = .error err) : info g a = .error err := by
      rw [info, descriptor, hg]
      rfl
    rw [hfail ht, hfail htype]
  | ok t =>
    obtain ⟨d, n, hd, hn, -⟩ := hs.exists_shaped ht
    have hdesc : h.descriptor a = .ok d := descriptor_eq_ok.2 ⟨t, ht, hd⟩
    have hdesc' : h'.descriptor a = .ok d := descriptor_eq_ok.2 ⟨t, htype.trans ht, hb.kept.descriptor hd⟩
    have hcontains := contains_of_typeOf ht
    rw [← hs.registry.types.ref_eq hd] at hcontains
    have hrender : h'.types.render d.ref = h.types.render d.ref :=
      hb.kept.registry.types.render_eq ho.types hcontains
    unfold info
    rw [hdesc, hdesc']
    show (if d.kind ≠ .array then _ else _ : Except Error ArrayInfo) = if d.kind ≠ .array then _ else _
    by_cases hkind : d.kind = .array
    · rw [if_neg (not_not_intro hkind), if_neg (not_not_intro hkind)]
      -- The words of an array lie inside its payload.
      obtain ⟨elem, rank, hparams, hrank, -⟩ := hs.registry.types.array hd hkind
      have harray : h.ArrayType a elem rank.toInt.toNat :=
        ⟨t, d, rank, ht, hd, hkind, hparams, (Int.toNat_of_nonneg hrank).symm⟩
      have hn := hs.size_array harray
      have hend := hs.end_le_top hn
      have hend' := hs'.end_le_top (hb.kept.size? hn)
      simp only [ownerOffset, refSize] at hn hend hend'
      have hword {j : Nat} (hj : j + 8 ≤ 32) : h'.readWord (a.offset + j) = h.readWord (a.offset + j) := by
        rw [readWord_eq (by omega), readWord_eq (by omega), hb.kept.word_eq hn (by omega) fun _ _ _ => id]
      have hslot : h'.readRef (a.offset + bufferWord) = h.readRef (a.offset + bufferWord) := by
        unfold readRef
        rw [hword (by decide)]
      simp only [hslot, hword (j := flagsWord) (by decide), hword (j := lengthWord) (by decide),
        hword (j := capacityWord) (by decide)]
    · rw [if_pos hkind, if_pos hkind, hrender]
      cases h.types.render d.ref <;> rfl

/-! ## Scalars -/

theorem scalarMismatch_eq (hb : Beside b h h') (ho : h.Orderly) (m : ScalarKind) (ht : h.types.contains t = true) :
    h'.scalarMismatch m t = h.scalarMismatch m t :=
  hb.mismatch_eq ho (ho.sound.contains_scalar m) ht

/-- A box is read. -/
theorem read_eq (hb : Beside b h h') (ho : h.Orderly) (ht : h.Tidy) (hs' : h'.Sound) (m : ScalarKind)
    (hv : h.Live v ∨ v ≠ b) : Box.read m h' v = Box.read m h v := by
  have hs := ho.sound
  unfold Box.read
  rw [hb.typeOf_eq hs hs' hv]
  cases htype : h.typeOf v with
  | error err => rfl
  | ok t =>
    show (if t ≠ m.type then throw (h'.scalarMismatch m t) >>= _ else _ : Except Error m.Carrier) =
      if t ≠ m.type then throw (h.scalarMismatch m t) >>= _ else _
    by_cases hsame : t = m.type
    · rw [if_neg (not_not_intro hsame), if_neg (not_not_intro hsame)]
      rw [hsame] at htype
      obtain ⟨l, hl, hbits, hsize⟩ := hs.scalar_layout htype
      have hn := hs.size_bits htype hl hbits
      have hend := hs.end_le_top hn
      have hend' := hs'.end_le_top (hb.kept.size? hn)
      have hwindow : h'.memory.window v.offset m.size = h.memory.window v.offset m.size :=
        Memory.window_congr fun j hj => hb.kept.bytes hn (by omega) id
      have hvalue : h.ValueAt m.type v.offset :=
        .object htype (Layouts.descriptor_scalar hs.registry.types m) rfl
      rw [bytes_eq (by omega), bytes_eq (by omega), hwindow]
      exact ScalarKind.decode_eq hb.symbols fun hm => hvalue.exists_decode ht (by rw [hm]; decide)
    · rw [if_pos hsame, if_pos hsame, hb.scalarMismatch_eq ho m (contains_of_typeOf htype)]
      rfl

/-- What a slot in use stands for is read. -/
theorem readShown_eq {d : Datum} (hb : Beside b h h') (ho : h.Orderly) (ht : h.Tidy) (hs' : h'.Sound)
    (m : ScalarKind) (hf : info h a = .ok f) (hi : i < f.length) (hd : h.Shows f i (some d)) :
    d.read m h' = d.read m h := by
  have hs := ho.sound
  have hbody := (hs.arrays (hs.info_iff.1 hf)).body
  generalize hshown : some d = shown at hd
  cases hd with
  | reference storage =>
    obtain ⟨y, hslot, rfl⟩ := Option.map_eq_some_iff.1 hshown.symm
    obtain ⟨s, hy, -⟩ := isa_eq_ok.1 (hbody.fits storage i hi y hslot)
    exact hb.read_eq ho ht hs' m (.inl (live_of_typeOf hy))
  | @bits t n bits =>
    cases hshown
    obtain ⟨l, hl, -, hsize, -⟩ := bits.layout hbody
    obtain ⟨c, hc, -⟩ := hs.registry.layouts.describes hl
    unfold Datum.read
    dsimp only
    by_cases hsame : t = m.type
    · subst hsame
      rw [if_pos rfl, if_pos rfl]
      refine ScalarKind.decode_eq hb.symbols fun hm => ?_
      have hvalue : h.ValueAt m.type _ := .element hf hi bits
      rw [← hsize, hs.registry.primitive_layout (Layouts.descriptor_scalar hs.registry.types m) rfl hl, Layout.bits,
        Layouts.toNat_scalar_size]
      exact hvalue.exists_decode ht (by rw [hm]; decide)
    · rw [if_neg hsame, if_neg hsame, hb.scalarMismatch_eq ho m (TypeTable.contains_iff.2 ⟨c, hc⟩)]

/-- An element is read. -/
theorem getScalar_eq (hb : Beside b h h') (ho : h.Orderly) (ht : h.Tidy) (hs' : h'.Sound) (hne : a ≠ b)
    (m : ScalarKind) (i : Nat) : ((getScalar m a i).runOn h').1 = ((getScalar m a i).runOn h).1 := by
  have hs := ho.sound
  have hinfo := hb.info_eq ho hs' hne
  cases hf : info h a with
  | error err =>
    have hfail {g : Heap} (hg : info g a = .error err) : (getScalar m a i).runOn g = (.error err, g) :=
      runOn_bind_error (runOn_bind_error (by rw [runOn_look, hg]))
    rw [hfail hf, hfail (hinfo.trans hf)]
  | ok f =>
    have ha := hs.info_iff.1 hf
    have ha' := hs'.info_iff.1 (hinfo.trans hf)
    have hbody := (hs.arrays ha).body
    by_cases hi : i < f.length
    · obtain ⟨shown, hd⟩ := exists_shows hbody hi
      have hd' : h'.Shows f i shown :=
        hd.of_same hbody (hb.kept.sameSlot hs hbody (Nat.lt_of_lt_of_le hi hbody.length_le) fun _ _ => id)
      have hread {g : Heap} (hg : (get a i).runOn g = (defined i shown, g)) :
          (getScalar m a i).runOn g = (defined i shown >>= Datum.read m g, g) :=
        Action.runOn_bind_asked hg fun d g => d.read m g
      rw [hread (runOn_get hs ha hi hd), hread (runOn_get hs' ha' hi hd')]
      cases shown with
      | none => rfl
      | some d => exact hb.readShown_eq ho ht hs' m hf hi hd
    · have hread {g : Heap} {r : Error} (hg : (get a i).runOn g = (.error r, g)) :
          (getScalar m a i).runOn g = (.error r, g) := runOn_bind_error hg
      rw [hread (runOn_get_error hs ha (Nat.not_lt.1 hi)), hread (runOn_get_error hs' ha' (Nat.not_lt.1 hi))]

/-! ## Writing -/

/-- Both heaps are written to, and the same is there afterwards. -/
theorem written (hb : Beside b h k) (hr : Rewrites S h h') (hr' : Rewrites S' k k')
    (hbytes : ∀ {v n j}, h.size? v = some n → j < n → k'.byte v j = h'.byte v j)
    (hsymbols : h'.symbols.Grows k'.symbols) : Beside b h' k' where
  kept := {
    registry := by
      rw [hr.registry, hr'.registry]
      exact hb.kept.registry
    size? := fun {v n} hn => by
      rw [hr.size?_eq] at hn
      rw [hr'.size?_eq]
      exact hb.kept.size? hn
    typeOf := fun ht => hr'.typeOf_iff.2 (hb.kept.typeOf (hr.typeOf_iff.1 ht))
    bytes := fun {v n j} hn hj _ => by
      rw [hr.size?_eq] at hn
      exact hbytes hn hj }
  only w hw := by
    rw [hr.live_iff]
    exact hb.only w (hr'.live_iff.1 hw)
  symbols := hsymbols

/-- The same symbols are listed. -/
theorem listed (hb : Beside b h k) : Beside b { h with symbols := k.symbols } k :=
  hb.written (.withSymbols (fun _ _ => False) h _) (.refl (fun _ _ => False) k)
    (fun hn hj => hb.kept.bytes hn hj id) (.refl _)

/-- The same bytes are written to the same place. -/
theorem put {bs : List UInt8} {j : Nat} (hb : Beside b h k) (ha : h.Arena) (ha' : k.Arena) (hn : h.size? v = some n)
    (hend : j + bs.length ≤ n) : Beside b (h.put v j bs) (k.put v j bs) := by
  have hn' := hb.kept.size? hn
  have hreach := ha.end_le hn
  have hreach' := ha'.end_le hn'
  refine hb.written (.put (S := fun _ _ => True) ha hn hend fun _ _ _ => trivial)
    (.put (S := fun _ _ => True) ha' hn' hend fun _ _ _ => trivial) (fun {w m i} hm hi => ?_) ?_
  · refine byte_put_congr ?_ ?_ (hb.kept.bytes hm hi id)
    · have := ha.reach
      omega
    · have := ha'.reach
      omega
  · rw [put_symbols, put_symbols]
    exact hb.symbols

end Beside

/-- Two runs came to the same: one outcome, and heaps beside one another. -/
structure EndBeside {α : Type} (b : Value) (r r' : Except Error α × Heap) : Prop where
  outcome : r.1 = r'.1
  heaps : Beside b r.2 r'.2

end Heap

end TypedHeap
