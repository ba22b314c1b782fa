import TypedHeap.Array.Shape
import TypedHeap.Proofs.Array.Contents

/-!
# Other lengths

An array that gets shorter forgets its last elements for good: their slots are emptied, and whatever gets
there later finds zeros. So an array that gets longer shows elements to which nothing has been stored,
no matter what used to be there or whether the elements have moved.

* `ArrayObject.resized`: a list of another length.
* `Heap.BodySound.resize`: a buffer describes an array of another length, if what is not used any more is
  zero.
* `Heap.Resized`: the slots of an array, and its slots once it has another length.
* `Heap.Lengthening`: the bytes that a change of length in place may change.
* `ArrayObject.runOn_clearSlots`, `runOn_writeLength`: its parts.

Main results: `Resized.holds`, `runOn_setLength`.
-/

namespace TypedHeap

open Heap ArrayObject

variable {h h' h'' : Heap} {a : Value} {f g : ArrayInfo} {i j lo hi n : Nat} {d e : Option Datum}
  {xs : List (Option Datum)} {S : Value → Nat → Prop}

/-! ## Lists -/

namespace ArrayObject

/-- The first `n` elements of a list, and as many defaults as are missing. -/
def resized (d : Option Datum) (n : Nat) (xs : List (Option Datum)) : List (Option Datum) :=
  xs.take n ++ List.replicate (n - xs.length) d

theorem length_resized : (resized d n xs).length = n := by
  rw [resized, List.length_append, List.length_take, List.length_replicate]
  omega

theorem getElem?_resized (he : (resized d n xs)[i]? = some e) :
    i < n ∧ (xs[i]? = some e ∨ xs.length ≤ i ∧ e = d) := by
  have hi := (List.getElem?_eq_some_iff.1 he).1
  rw [length_resized] at hi
  refine ⟨hi, ?_⟩
  by_cases hold : i < xs.length
  · rw [resized, List.getElem?_append_left (by rw [List.length_take]; omega), List.getElem?_take_of_lt hi] at he
    exact .inl he
  · rw [resized, List.getElem?_append_right (by rw [List.length_take]; omega)] at he
    exact .inr ⟨Nat.not_lt.1 hold, List.eq_of_mem_replicate (List.mem_of_getElem? he)⟩

/-- One element more. -/
theorem resized_succ : resized d (xs.length + 1) xs = xs ++ [d] := by
  rw [resized, List.take_of_length_le (Nat.le_succ _), Nat.add_sub_cancel_left]
  rfl

/-- The element that was appended is taken away again. -/
theorem resized_append : resized d xs.length (xs ++ [e]) = xs := by
  rw [resized, List.take_left, List.length_append, Nat.sub_eq_zero_of_le (Nat.le_add_right _ _)]
  exact List.append_nil xs

end ArrayObject

namespace Heap

/-! ## Buffers -/

/-- A buffer describes an array of another length, if what is not used any more is zero. -/
theorem BodySound.resize (hb : h.BodySound f) (hn : n ≤ f.capacity)
    (hzero : n < f.length → ∀ j, f.Between n f.length j → h.byte f.buffer (refSize + j) = 0) :
    h.BodySound { f with length := n } := by
  have hvacant (j : Nat) (hj : f.Between n f.capacity j) : h.byte f.buffer (refSize + j) = 0 := by
    rcases Nat.lt_or_ge n f.length with hshrink | hgrow
    · exact (hj.split f.length).elim (hzero hshrink j) (hb.vacant j)
    · exact hb.vacant j (hj.mono hgrow (Nat.le_refl _))
  have hslot (i : Nat) (hold : ¬i < f.length) (hi : i < n) (j : Nat) (hj : f.Between i (i + 1) j) :
      h.byte f.buffer (refSize + j) = 0 := hb.vacant j (hj.mono (Nat.not_lt.1 hold) (by omega))
  refine ⟨hb.stored, hn, hb.buffer, hb.room, hvacant, fun href i hi => ?_, fun hsel i hi => ?_⟩
  · by_cases hold : i < f.length
    · exact hb.fits href i hold
    · exact fits_of_none (hb.slot_of_zeros href (hslot i hold hi))
  · by_cases hold : i < f.length
    · exact hb.selectors hsel i hold
    · have hsel : f.flags.storage = .selected := hsel
      have hzero : h.byte f.buffer (refSize + f.selectorOffset i) = 0 :=
        hslot i hold hi _ (.inr ⟨hsel, Nat.le_refl _, Nat.lt_succ_self _⟩)
      show h.registry.Selector f.elem (h.byte f.buffer (refSize + f.selectorOffset i))
      rw [hzero]
      exact hb.selector_zero hsel

/-- The slots of `f`, and those of `g` once the array has another length: the elements that stay are the
same, and slots that come into use are zeros. -/
structure Resized (h : Heap) (f : ArrayInfo) (h' : Heap) (g : ArrayInfo) : Prop where
  elem : g.elem = f.elem
  flags : g.flags = f.flags
  kept : ∀ i, i < f.length → i < g.length → SameSlot h f h' g i
  fresh : ∀ i, f.length ≤ i → i < g.length → ∀ j, g.Between i (i + 1) j →
    h'.byte g.buffer (refSize + j) = 0

theorem SameSlot.withLength (hsame : SameSlot h f h' g i) : SameSlot h f h' { g with length := n } i :=
  ⟨hsame.registry, hsame.elem, hsame.storage, hsame.slotSize, hsame.bytes, hsame.selector⟩

/-- Whoever writes somewhere else does not change that. -/
theorem Resized.keeps (hr : Resized h f h' g) (hs : h'.Sound) (hb : h'.BodySound g) (hk : Keeps S h' h'')
    (hS : ∀ j, ¬S g.buffer j) : Resized h f h'' g where
  elem := hr.elem
  flags := hr.flags
  kept i hf hg := (hr.kept i hf hg).trans
    (hk.sameSlot hs hb (Nat.lt_of_lt_of_le hg hb.length_le) fun _ _ => hS _)
  fresh i hf hg j hj := by
    have hin := hb.between_lt (Nat.le_trans hg hb.length_le) hj
    rw [hk.bytes (hs.size_buffer hb.buffer) (by omega) (hS _)]
    exact hr.fresh i hf hg j hj

/-- The list is cut off, or filled up with defaults. -/
theorem Resized.holds (hr : Resized h f h' g) (hb : h.BodySound f) (hx : h.Holds f xs)
    (hs : h'.registry.Sound) (hb' : h'.BodySound g) :
    ∃ d, h'.Default f.elem d ∧ h'.Holds g (resized d g.length xs) := by
  obtain ⟨d, hd, hshows⟩ := exists_default hs hb'
  rw [hr.elem] at hd
  refine ⟨d, hd, length_resized, fun i e he => ?_⟩
  obtain ⟨hi, hold | ⟨hnew, rfl⟩⟩ := getElem?_resized he
  · exact (hx.shows i e hold).of_same hb (hr.kept i (hx.lt hold) hi)
  · exact hshows i (hr.fresh i (by rw [← hx.length]; exact hnew) hi)

/-- The bytes of an array that say how long it is, and those of the slots that come into use, or out of it. -/
def Lengthening (a : Value) (f : ArrayInfo) (n : Nat) (w : Value) (k : Nat) : Prop :=
  (w = a ∧ LengthByte k) ∨ Cells f (min f.length n) (max f.length n) w k

end Heap

namespace ArrayObject

/-! ## In place -/

/-- Zeros are written to slots of an array. -/
theorem runOn_zeroSlots (hs : h.Sound) (ha : h.IsArray a f) (hle : lo ≤ hi) (hhi : hi ≤ f.capacity)
    (hS : ∀ j, S f.buffer j) :
    ∃ h', (clearBytes (f.buffer.offset + refSize + f.slotOffset lo) ((hi - lo) * f.flags.slotSize)).runOn h =
        (.ok ⟨⟩, h') ∧ Step S h h' ∧ Writes (Cells f lo hi) h h' ∧
      ∀ j, f.slotOffset lo ≤ j → j < f.slotOffset hi → h'.byte f.buffer (refSize + j) = 0 := by
  have hb := (hs.arrays ha).body
  obtain ⟨hlen, hend⟩ := hb.slots_end hle hhi
  have hsize := hs.size_buffer hb.buffer
  have htop := hs.end_le_top hsize
  have hreach := hs.arena.reach
  have hzeros := List.length_replicate (n := (hi - lo) * f.flags.slotSize) (a := (0 : UInt8))
  rw [Nat.add_assoc]
  refine ⟨_, runOn_clearBytes (by omega), .elementsCleared ha hle hhi hS, ?_, fun j h1 h2 => ?_⟩
  · exact .put hs.arena hsize (by omega) fun j hj hj' =>
      ⟨rfl, j - refSize, by omega, .inl ⟨by omega, by omega⟩⟩
  · exact byte_put_zeros (by omega) (by omega) (by omega)

/-- Zeros are written to their selectors, after the slots. -/
theorem runOn_zeroSelectors (hs : h.Sound) (ha : h.IsArray a f) (hle : lo ≤ hi) (hhi : hi ≤ f.capacity)
    (hsel : f.flags.storage = .selected)
    (hslots : ∀ j, f.slotOffset lo ≤ j → j < f.slotOffset hi → h.byte f.buffer (refSize + j) = 0)
    (hS : ∀ j, S f.buffer j) :
    ∃ h', (clearBytes (f.buffer.offset + refSize + f.selectorOffset lo) (hi - lo)).runOn h = (.ok ⟨⟩, h') ∧
      Step S h h' ∧ Writes (Cells f lo hi) h h' ∧
        ∀ j, f.Between lo hi j → h'.byte f.buffer (refSize + j) = 0 := by
  have hb := (hs.arrays ha).body
  have hsize := hs.size_buffer hb.buffer
  have htop := hs.end_le_top hsize
  have hreach := hs.arena.reach
  have hend := hb.selector_end hsel hhi
  have hbefore : f.slotOffset hi ≤ f.selectorOffset lo := f.slotOffset_le_selectorOffset hhi
  have hlen : f.selectorOffset lo + (hi - lo) = f.selectorOffset hi := by
    simp only [ArrayInfo.selectorOffset]
    omega
  have hzeros := List.length_replicate (n := hi - lo) (a := (0 : UInt8))
  rw [Nat.add_assoc]
  refine ⟨_, runOn_clearBytes (by omega), .selectorsCleared ha hle hhi hsel hslots hS, ?_, fun j hj => ?_⟩
  · exact .put hs.arena hsize (by omega) fun j hj hj' =>
      ⟨rfl, j - refSize, by omega, .inr ⟨hsel, by omega, by omega⟩⟩
  · rcases hj with ⟨h1, h2⟩ | ⟨-, h1, h2⟩
    · rw [byte_put_outside (.inl (by omega)), hslots j h1 h2]
    · exact byte_put_zeros (by omega) (by omega) (by omega)

/-- Slots of an array are emptied, and their selectors. -/
theorem runOn_clearSlots (hs : h.Sound) (ha : h.IsArray a f) (hle : lo ≤ hi) (hhi : hi ≤ f.capacity)
    (hS : ∀ j, S f.buffer j) :
    ∃ h', (clearSlots f lo hi).runOn h = (.ok ⟨⟩, h') ∧ Path S h h' ∧ Writes (Cells f lo hi) h h' ∧
      ∀ j, f.Between lo hi j → h'.byte f.buffer (refSize + j) = 0 := by
  obtain ⟨h₁, hclear, step, hr, hslots⟩ := runOn_zeroSlots hs ha hle hhi hS
  unfold clearSlots
  rw [Action.runOn_bind_ok (hs.runOn_start ha), Action.runOn_bind_ok hclear]
  by_cases hsel : f.flags.storage = .selected
  · have ha₁ := hs.isArray_kept ha hr.keeps fun _ hin =>
      hs.ne_buffer (hs.arrays ha).type (hs.arrays ha).body.buffer hin.1
    obtain ⟨h₂, hclear', step', hr', hzero⟩ :=
      runOn_zeroSelectors (step.sound hs) ha₁ hle hhi hsel hslots hS
    rw [if_pos hsel]
    exact ⟨h₂, hclear', (Path.step step).tail step', hr.trans hr', hzero⟩
  · rw [if_neg hsel]
    refine ⟨h₁, rfl, .step step, hr, fun j hj => ?_⟩
    rcases hj with ⟨h1, h2⟩ | ⟨hsel', -⟩
    · exact hslots j h1 h2
    · exact absurd hsel' hsel

/-- The length of an array of one dimension stands in two words. -/
theorem runOn_writeLength (hs : h.Sound) (ha : h.IsArray a f) (hndims : f.flags.ndims = 1) :
    (do
      writeWord (a.offset + lengthWord) n
      writeWord (a.offset + dimWord 0) n : HeapM Unit).runOn h = (.ok ⟨⟩, h.putLength a n) := by
  have hend := hs.end_le_top (hs.size_vectorArray ha hndims)
  have hdim : dimWord 0 = 32 := rfl
  rw [Action.runOn_bind_ok (runOn_writeWord (by rw [lengthWord]; omega)),
    runOn_writeWord (by rw [putWord, put_top, hdim]; omega), putLength]

/-- An array whose slots are ready for another length gets it. -/
theorem resized_putLength (hr : Resized h f h' { g with length := n }) (hs : h'.Sound)
    (ha : h'.IsArray a g) (hndims : g.flags.ndims = 1) (hsole : g.flags.isShared = false)
    (hb : h'.BodySound { g with length := n }) (hS : ∀ j, S a j) :
    Path S h' (h'.putLength a n) ∧ (h'.putLength a n).IsArray a { g with length := n } ∧
      Resized h f (h'.putLength a n) { g with length := n } := by
  have hcapacity := h'.word_lt a capacityWord
  rw [ha.capacity] at hcapacity
  have hk : Keeps (fun w _ => w = a) h' (h'.putLength a n) :=
    (putLength_writes hs ha hndims fun _ _ => rfl).keeps
  refine ⟨.step (.arrayLength ha hndims hsole hb hS), ?_, hr.keeps hs hb hk fun _ heq => ?_⟩
  · exact (arraySound_putLength hs ha hndims hb (Nat.lt_of_le_of_lt hb.length_le hcapacity)).1
  · exact hs.ne_buffer (hs.arrays ha).type hb.buffer heq.symm

/-- As long as there is room, nothing moves. -/
theorem runOn_setLength (hs : h.Sound) (ha : h.IsArray a f) (hndims : f.flags.ndims = 1)
    (hsole : f.flags.isShared = false) (hn : n ≤ f.capacity) (hS : ∀ j, S a j) (hSb : ∀ j, S f.buffer j) :
    ∃ h', (do
        clearSlots f (min f.length n) (max f.length n)
        writeWord (a.offset + lengthWord) n
        writeWord (a.offset + dimWord 0) n : HeapM Unit).runOn h = (.ok ⟨⟩, h') ∧ Path S h h' ∧
      Writes (Lengthening a f n) h h' ∧ h'.IsArray a { f with length := n } ∧
        Resized h f h' { f with length := n } := by
  have hb := (hs.arrays ha).body
  have hle := hb.length_le
  have hmax : max f.length n ≤ f.capacity := by omega
  have hmin : min f.length n ≤ max f.length n := by omega
  obtain ⟨h₁, hclear, hp, hr, hzero⟩ := runOn_clearSlots hs ha hmin hmax hSb
  have hs₁ := hp.sound hs
  have ha₁ := hs.isArray_kept ha hr.keeps fun _ hin => hs.ne_buffer (hs.arrays ha).type hb.buffer hin.1
  have hresized : Resized h f h₁ { f with length := n } := by
    refine ⟨rfl, rfl, fun i hi hi' => SameSlot.withLength ?_, fun i hi hi' j hj => hzero j ?_⟩
    · have hi' : i < n := hi'
      refine hr.keeps.sameSlot hs hb (by omega) fun j hj hin => ?_
      obtain ⟨-, k, heq, hk⟩ := hin
      obtain rfl : j = k := Nat.add_left_cancel heq
      have hbounds := hj.bounds hk (by omega) hmax
      omega
    · have hi' : i < n := hi'
      have hj : f.Between i (i + 1) j := hj
      exact hj.mono (by omega) (by omega)
  have hb₁ : h₁.BodySound { f with length := n } := by
    refine (hs₁.arrays ha₁).body.resize hn fun hshrink j hj => hzero j ?_
    exact hj.mono (by omega) (by omega)
  obtain ⟨hp', ha', hr'⟩ := resized_putLength hresized hs₁ ha₁ hndims hsole hb₁ hS
  have hlength : Writes (Lengthening a f n) h₁ (h₁.putLength a n) :=
    putLength_writes hs₁ ha₁ hndims fun _ hj => .inl ⟨rfl, hj⟩
  refine ⟨_, ?_, hp.trans hp', (hr.mono fun _ _ => .inr).trans hlength, ha', hr'⟩
  rw [Action.runOn_bind_ok hclear, runOn_writeLength hs₁ ha₁ hndims]

end ArrayObject

end TypedHeap
