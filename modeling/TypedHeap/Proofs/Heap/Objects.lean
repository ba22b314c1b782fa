import Mathlib.Algebra.GroupWithZero.Nat
import TypedHeap.Heap.Allocate
import TypedHeap.Proofs.Registry

/-!
# Objects in memory

* `Heap.size?`, `byte`, `word`, `slot`: the payload of an object, without the checks that reading
  goes through.
* `Heap.Live`: values that refer to an object.
* `Heap.Arena`: how objects lie in memory. Each starts at a multiple of sixteen behind the end of the
  one before it, with room for its header word, and behind the last one everything is zero.

Main results: `Arena.disjoint`, `readWord_eq`, `typeOf_eq_ok`.
-/

namespace TypedHeap.Heap

variable {h : Heap} {v w : Value} {n m k : Nat} {t : TypeRef}

/-! ## Payloads -/

/-- The payload size of an object. -/
def size? (h : Heap) (v : Value) : Option Nat := h.objects.lookup v.offset

/-- A value that refers to an object. -/
def Live (h : Heap) (v : Value) : Prop := ∃ n, h.size? v = some n

/-- The byte of a payload at an offset. -/
def byte (h : Heap) (v : Value) (k : Nat) : UInt8 := h.memory.get (v.offset + k)

/-- The word of a payload at an offset. -/
def word (h : Heap) (v : Value) (k : Nat) : Nat :=
  LittleEndian.ofBytes (h.memory.window (v.offset + k) 8)

/-- The reference in a payload at an offset. -/
def slot (h : Heap) (v : Value) (k : Nat) : Option Value := Value.ofWord? (h.word v k)

/-- The header of an object. -/
def headerOf (h : Heap) (v : Value) : Header :=
  ⟨LittleEndian.ofBytes (h.memory.window (v.offset - 8) 8)⟩

theorem size?_congr {h' : Heap} (hobjects : h'.objects = h.objects) (v : Value) : h'.size? v = h.size? v := by
  rw [size?, size?, hobjects]

theorem live_congr {h' : Heap} (hobjects : h'.objects = h.objects) : h'.Live v ↔ h.Live v := by
  rw [Live, Live, size?_congr hobjects]

/-- Runs of bytes that agree byte by byte are the same run. -/
theorem window_eq_of_byte_eq {h' : Heap} {len : Nat}
    (hbyte : ∀ j, j < len → h'.byte v (n + j) = h.byte w (m + j)) :
    h'.memory.window (v.offset + n) len = h.memory.window (w.offset + m) len := by
  refine Memory.window_congr fun j hj => ?_
  have := hbyte j hj
  unfold byte at this
  rwa [← Nat.add_assoc, ← Nat.add_assoc] at this

/-- Words with the same bytes are the same word. -/
theorem word_eq_of_byte_eq {h' : Heap} (hbyte : ∀ j, j < 8 → h'.byte v (n + j) = h.byte w (m + j)) :
    h'.word v n = h.word w m := by
  rw [word, window_eq_of_byte_eq hbyte, word]

theorem word_congr {h' : Heap} (hbyte : ∀ j, k ≤ j → j < k + 8 → h'.byte v j = h.byte v j) :
    h'.word v k = h.word v k :=
  word_eq_of_byte_eq fun j hj => hbyte (k + j) (by omega) (by omega)

/-- And the bytes of the same word are the same. -/
theorem byte_eq_of_word_eq {h' : Heap} {j : Nat} (hword : h'.word v k = h.word v k) (hlo : k ≤ j) (hhi : j < k + 8) :
    h'.byte v j = h.byte v j := by
  have hlen (m : Memory) : (m.window (v.offset + k) 8).length = 8 := Memory.length_window _ _ _
  have hbytes (m : Memory) :
      LittleEndian.toBytes 8 (LittleEndian.ofBytes (m.window (v.offset + k) 8)) = m.window (v.offset + k) 8 := by
    have hround := LittleEndian.toBytes_ofBytes (m.window (v.offset + k) 8)
    rwa [hlen] at hround
  have hwindow : h'.memory.window (v.offset + k) 8 = h.memory.window (v.offset + k) 8 := by
    rw [← hbytes, ← hbytes h.memory]
    exact congrArg (LittleEndian.toBytes 8) hword
  obtain ⟨i, rfl⟩ := Nat.exists_eq_add_of_le hlo
  have hget := congrArg (fun bs : List UInt8 => bs[i]?) hwindow
  rw [List.getElem?_eq_getElem (by rw [hlen]; omega), List.getElem?_eq_getElem (by rw [hlen]; omega),
    Memory.getElem_window, Memory.getElem_window, Nat.add_assoc] at hget
  exact Option.some.inj hget

theorem slot_congr {h' : Heap} (hbyte : ∀ j, k ≤ j → j < k + 8 → h'.byte v j = h.byte v j) :
    h'.slot v k = h.slot v k := by
  rw [slot, slot, word_congr hbyte]

theorem word_lt (h : Heap) (v : Value) (k : Nat) : h.word v k < 0x10000000000000000 := by
  have := LittleEndian.ofBytes_lt (h.memory.window (v.offset + k) 8)
  rwa [Memory.length_window, LittleEndian.count_eight] at this

/-- A word all of whose bytes are zero is zero. -/
theorem word_eq_zero (hbyte : ∀ j, k ≤ j → j < k + 8 → h.byte v j = 0) : h.word v k = 0 := by
  have hwindow : h.memory.window (v.offset + k) 8 = LittleEndian.toBytes 8 0 := by
    rw [LittleEndian.toBytes_zero]
    refine List.ext_getElem (by simp) fun j hj _ => ?_
    rw [Memory.getElem_window, List.getElem_replicate]
    rw [Memory.length_window] at hj
    have := hbyte (k + j) (by omega) (by omega)
    unfold byte at this
    rwa [← Nat.add_assoc] at this
  rw [word, hwindow, LittleEndian.ofBytes_toBytes]
  rfl

theorem slot_eq_none_of_zero (hzero : h.word v k = 0) : h.slot v k = none := by
  rw [slot, hzero]
  rfl

/-! ## Questions with their checks -/

theorem objectSize_eq_ok : h.objectSize v = .ok n ↔ h.size? v = some n := by
  unfold objectSize size?
  split
  · rename_i size hsize
    rw [hsize]
    simp
  · rename_i hsize
    rw [hsize]
    simp

theorem bytes_eq {off len : Nat} (hend : off + len ≤ h.top) :
    h.bytes off len = .ok (h.memory.window off len) := by
  unfold bytes checkRange
  rw [if_pos hend]
  rfl

theorem bytes_eq_ok {off len : Nat} {bs : List UInt8} :
    h.bytes off len = .ok bs ↔ off + len ≤ h.top ∧ h.memory.window off len = bs := by
  by_cases hend : off + len ≤ h.top
  · rw [bytes_eq hend]
    simp [hend]
  · unfold bytes checkRange
    rw [if_neg hend]
    exact ⟨nofun, fun h => absurd h.1 hend⟩

theorem readWord_eq (hend : v.offset + k + 8 ≤ h.top) : h.readWord (v.offset + k) = .ok (h.word v k) := by
  unfold readWord
  rw [bytes_eq hend]
  rfl

theorem readWord_eq_ok {x : Nat} :
    h.readWord (v.offset + k) = .ok x ↔ v.offset + k + 8 ≤ h.top ∧ h.word v k = x := by
  unfold readWord word
  rw [bind_eq_ok]
  simp only [bytes_eq_ok, pure_eq_ok]
  constructor
  · rintro ⟨bs, ⟨hend, rfl⟩, rfl⟩
    exact ⟨hend, rfl⟩
  · rintro ⟨hend, rfl⟩
    exact ⟨_, ⟨hend, rfl⟩, rfl⟩

theorem readRef_eq (hend : v.offset + k + 8 ≤ h.top) : h.readRef (v.offset + k) = .ok (h.slot v k) := by
  unfold readRef
  rw [readWord_eq hend]
  rfl

theorem readRef_eq_ok {x : Option Value} :
    h.readRef (v.offset + k) = .ok x ↔ v.offset + k + 8 ≤ h.top ∧ h.slot v k = x := by
  unfold readRef slot
  rw [bind_eq_ok]
  simp only [readWord_eq_ok, pure_eq_ok]
  constructor
  · rintro ⟨_, ⟨hend, rfl⟩, rfl⟩
    exact ⟨hend, rfl⟩
  · rintro ⟨hend, rfl⟩
    exact ⟨_, ⟨hend, rfl⟩, rfl⟩

theorem header_eq_ok {x : Header} :
    h.header v = .ok x ↔ h.Live v ∧ v.offset - 8 + 8 ≤ h.top ∧ h.headerOf v = x := by
  unfold header Live headerOf readWord
  simp only [bind_eq_ok, objectSize_eq_ok, bytes_eq_ok, pure_eq_ok]
  constructor
  · rintro ⟨n, hn, _, ⟨_, ⟨hend, rfl⟩, rfl⟩, rfl⟩
    exact ⟨⟨n, hn⟩, hend, rfl⟩
  · rintro ⟨⟨n, hn⟩, hend, rfl⟩
    exact ⟨n, hn, _, ⟨_, ⟨hend, rfl⟩, rfl⟩, rfl⟩

/-- The type of an object is what its header says. -/
theorem typeOf_eq_ok :
    h.typeOf v = .ok t ↔ h.Live v ∧ v.offset - 8 + 8 ≤ h.top ∧ (h.headerOf v).type? = some t ∧
      h.types.contains t = true := by
  unfold typeOf
  simp only [bind_eq_ok, header_eq_ok]
  constructor
  · rintro ⟨x, ⟨hlive, hend, rfl⟩, hx⟩
    split at hx
    · cases hx
    · rename_i s hs
      split at hx
      · rename_i hc
        cases hx
        exact ⟨hlive, hend, hs, hc⟩
      · cases hx
  · rintro ⟨hlive, hend, htype, hc⟩
    refine ⟨_, ⟨hlive, hend, rfl⟩, ?_⟩
    rw [htype]
    show (if h.types.contains t = true then pure t else _ : Except Error TypeRef) = _
    rw [if_pos hc]
    rfl

theorem live_of_typeOf (ht : h.typeOf v = .ok t) : h.Live v := (typeOf_eq_ok.1 ht).1

theorem isa_eq_ok {declared : TypeRef} {b : Bool} :
    h.isa v declared = .ok b ↔ ∃ t, h.typeOf v = .ok t ∧ h.types.isa t declared = .ok b :=
  bind_eq_ok

theorem descriptor_eq_ok {d : Descriptor} :
    h.descriptor v = .ok d ↔ ∃ t, h.typeOf v = .ok t ∧ h.types.descriptor t = .ok d :=
  bind_eq_ok

theorem expectType_eq_ok : h.expectType v t = .ok () ↔ h.typeOf v = .ok t := by
  unfold expectType
  rw [bind_eq_ok]
  constructor
  · rintro ⟨s, hs, h⟩
    split at h
    · cases h
    · rename_i hne
      rw [hs, Decidable.not_not.1 hne]
  · intro ht
    refine ⟨t, ht, ?_⟩
    rw [if_neg fun hne => hne rfl]
    rfl

/-! Words are only looked into by the facts above. -/

attribute [irreducible] word

/-! ## How objects lie in memory -/

/-- Objects lie one behind the other, with their headers between them, and nothing but zeros behind
the last one; and the counters tell what there is. -/
structure Arena (h : Heap) : Prop where
  aligned : ∀ p ∈ h.objects, 0 < p.1 ∧ p.1 % 16 = 0
  /-- Newer objects stand in front in the table and lie behind in memory. -/
  ordered : h.objects.Pairwise fun p q => q.1 + q.2 + 8 ≤ p.1
  below : ∀ p ∈ h.objects, p.1 + p.2 ≤ h.top
  reach : h.top ≤ h.memory.length
  capacity : h.stats.capacityBytes = h.memory.length
  limit : h.memory.length ≤ h.limit
  vacant : ∀ i, h.top ≤ i → h.memory.get i = 0
  count : h.stats.objects = h.objects.length
  allocated : h.stats.allocatedBytes = (h.objects.map fun p => p.2 + 8).sum

theorem arena_fresh (config : HeapConfig) (barrier : Barrier) : (fresh config barrier).Arena where
  aligned := nofun
  ordered := .nil
  below := nofun
  reach := Nat.zero_le _
  capacity := rfl
  limit := by
    show (if config.initialBytes ≤ config.maxBytes then config.initialBytes
      else config.maxBytes).toNat ≤ config.maxBytes.toNat
    split
    · rename_i hle
      exact UInt64.le_iff_toNat_le.1 hle
    · exact Nat.le_refl _
  vacant := fun i _ => Memory.get_zeros _ i
  count := rfl
  allocated := rfl

theorem mem_of_size? (hn : h.size? v = some n) : (v.offset, n) ∈ h.objects := by
  obtain ⟨before, after, hsplit, -⟩ := List.lookup_eq_some_iff.1 hn
  rw [hsplit]
  exact List.mem_append_right _ List.mem_cons_self

namespace Arena

theorem offset_ne_of_ordered {p : Nat × Nat} {l : List (Nat × Nat)}
    (hp : ∀ q ∈ l, q.1 + q.2 + 8 ≤ p.1) {q : Nat × Nat} (hq : q ∈ l) : q.1 ≠ p.1 := by
  have := hp q hq
  omega

theorem size?_of_mem (ha : h.Arena) (hmem : (v.offset, n) ∈ h.objects) : h.size? v = some n := by
  unfold size?
  have hordered := ha.ordered
  generalize h.objects = l at hmem hordered
  induction hordered with
  | nil => cases hmem
  | @cons p l hp _ ih =>
    obtain ⟨off, size⟩ := p
    rw [List.lookup_cons]
    rcases List.mem_cons.1 hmem with heq | hmem
    · cases heq
      rw [beq_self_eq_true]
    · have hne : (v.offset == off) = false := beq_eq_false_iff_ne.2 (offset_ne_of_ordered hp hmem)
      rw [hne]
      exact ih hmem

theorem end_le (ha : h.Arena) (hn : h.size? v = some n) : v.offset + n ≤ h.top :=
  ha.below _ (mem_of_size? hn)

theorem offset_mod (ha : h.Arena) (hv : h.Live v) : v.offset % 16 = 0 := by
  obtain ⟨n, hn⟩ := hv
  exact (ha.aligned _ (mem_of_size? hn)).2

theorem offset_ge (ha : h.Arena) (hv : h.Live v) : 16 ≤ v.offset := by
  have := ha.offset_mod hv
  have := v.pos
  omega

/-- Different objects have no byte in common, headers included. -/
theorem disjoint (ha : h.Arena) (hv : h.size? v = some n) (hw : h.size? w = some m) (hne : v ≠ w) :
    v.offset + n + 8 ≤ w.offset ∨ w.offset + m + 8 ≤ v.offset := by
  have hordered := ha.ordered
  have hrel : h.objects.Pairwise fun p q => p.1 + p.2 + 8 ≤ q.1 ∨ q.1 + q.2 + 8 ≤ p.1 :=
    hordered.imp fun h => .inr h
  have hsymm : Std.Symm fun p q : Nat × Nat => p.1 + p.2 + 8 ≤ q.1 ∨ q.1 + q.2 + 8 ≤ p.1 :=
    ⟨fun _ _ => Or.symm⟩
  refine hrel.forall (mem_of_size? hv) (mem_of_size? hw) fun heq => hne ?_
  exact Value.ext (congrArg Prod.fst heq)

theorem top_lt (ha : h.Arena) : h.top < 0x10000000000000000 := by
  have h1 := ha.reach
  have h2 := ha.limit
  have h3 : h.limit < 0x10000000000000000 := h.config.maxBytes.toNat_lt
  omega

theorem header_end_le (ha : h.Arena) (hv : h.Live v) : v.offset - 8 + 8 ≤ h.top := by
  have h1 := ha.offset_ge hv
  obtain ⟨n, hn⟩ := hv
  have h2 := ha.end_le hn
  omega

end Arena

end TypedHeap.Heap
