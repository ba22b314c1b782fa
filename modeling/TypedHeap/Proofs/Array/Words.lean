import TypedHeap.Proofs.Array.Changes

/-!
# The words of an array

* `Heap.putArray`: the heap after all words of an array were written.
* `Heap.putBuffer`: the heap after an array of one dimension got another buffer.
* `Heap.putLength`: the heap after an array of one dimension got another length.

Main results: `Sound.built`, `Sound.viewed`, `Sound.moved`, `Sound.resized`.
-/

namespace TypedHeap.Heap

open ArrayObject

variable {h h' : Heap} {a v buffer : Value} {f g : ArrayInfo} {elem : TypeRef} {i j k n rank : Nat}
  {dims : List Nat} {S : Value → Nat → Prop}

/-- The rank of an array fits in the flags word. -/
theorem Sound.rank_lt (hs : h.Sound) (ht : h.ArrayType a elem rank) : rank < ArrayFlags.fieldLimit := by
  obtain ⟨t, d, r, -, hd, hkind, hparams, hr⟩ := ht
  obtain ⟨elem', r', hparams', -, hle⟩ := hs.registry.types.array hd hkind
  rw [hparams] at hparams'
  cases hparams'
  have hmax : (TypeTable.maxRank : Int) = 65535 := rfl
  rw [ArrayFlags.fieldLimit]
  omega

/-! ## All words -/

/-- The words of an array, in order. -/
def arrayWords (f : ArrayInfo) (dims : List Nat) : List Nat :=
  [f.buffer.offset, f.length, f.flags.toWord, f.capacity] ++ dims ++ [f.buffer.offset]

/-- The heap with the words of an array that owns its buffer. -/
def putArray (h : Heap) (a : Value) (f : ArrayInfo) (dims : List Nat) : Heap :=
  h.putWords a 0 (arrayWords f dims)

theorem length_arrayWords (f : ArrayInfo) (dims : List Nat) :
    (arrayWords f dims).length = dims.length + 5 := by
  simp [arrayWords]

theorem putArray_writes (hs : h.Sound) (ht : h.ArrayType a elem dims.length)
    (hS : ∀ j, S a j) : Writes S h (h.putArray a f dims) := by
  refine .putWords hs.arena (hs.size_array ht) ?_ fun j _ _ => hS j
  rw [length_arrayWords]
  simp only [ownerOffset, refSize]
  omega

/-- Each word is read back. -/
theorem word_putArray (hs : h.Sound) (ht : h.ArrayType a elem dims.length) (hb : h.BodySound f)
    (hcapacity : f.capacity < 0x10000000000000000) (hdims : ∀ d ∈ dims, d < 0x10000000000000000)
    (hj : j < (arrayWords f dims).length) :
    (h.putArray a f dims).word a (8 * j) = (arrayWords f dims)[j] := by
  have hlength := hb.length_le
  have hend := hs.end_le_top (hs.size_array ht)
  have hreach := hs.arena.reach
  have hlen := length_arrayWords f dims
  simp only [ownerOffset, refSize] at hend
  have hwords : ∀ n ∈ arrayWords f dims, n < 0x10000000000000000 := by
    intro n hn
    simp only [arrayWords, List.mem_append, List.mem_cons, List.not_mem_nil, or_false] at hn
    rcases hn with ((rfl | rfl | rfl | rfl) | hn) | rfl
    · exact f.buffer.lt
    · omega
    · exact f.flags.toWord_lt
    · exact hcapacity
    · exact hdims n hn
    · exact f.buffer.lt
  have hword : (h.putWords a 0 (arrayWords f dims)).word a (0 + 8 * j) = (arrayWords f dims)[j] :=
    word_putWords (by omega) hwords hj
  rw [Nat.zero_add] at hword
  exact hword

/-- An array whose words describe a buffer that is as they say. -/
theorem arraySound_putArray (hs : h.Sound) (ht : h.ArrayType a f.elem dims.length) (hb : h.BodySound f)
    (hndims : f.flags.ndims = dims.length) (hcount : elementCount dims = some f.length)
    (hcapacity : f.capacity < 0x10000000000000000) (hdims : ∀ d ∈ dims, d < 0x10000000000000000) :
    (h.putArray a f dims).IsArray a f ∧ (h.putArray a f dims).ArraySound a f := by
  have hr : Rewrites (fun w _ => w = a) h (h.putArray a f dims) :=
    (putArray_writes hs ht fun _ => rfl).toRewrites
  have he := hr.extends
  have hlen := length_arrayWords f dims
  have hword {j : Nat} (hj : j < (arrayWords f dims).length) :
      (h.putArray a f dims).word a (8 * j) = (arrayWords f dims)[j] :=
    word_putArray hs ht hb hcapacity hdims hj
  have hdim (k : Nat) (hk : k < dims.length) : (h.putArray a f dims).word a (dimWord k) = dims[k] := by
    have hoffset : dimWord k = 8 * (k + 4) := by
      simp only [dimWord, refSize]
      omega
    rw [hoffset, hword (by omega)]
    simp [arrayWords, hk]
  have howner : (h.putArray a f dims).word a (ownerOffset dims.length) = f.buffer.offset := by
    have hoffset : ownerOffset dims.length = 8 * (dims.length + 4) := by
      simp only [ownerOffset, refSize]
      omega
    rw [hoffset, hword (by omega)]
    simp [arrayWords]
  have hslot {k : Nat} (hk : (h.putArray a f dims).word a k = f.buffer.offset) :
      (h.putArray a f dims).slot a k = some f.buffer := by
    rw [slot, hk]
    exact Value.ofWord?_toWord (some f.buffer)
  have hflags : ArrayFlags.ofWord f.flags.toWord = f.flags :=
    ArrayFlags.ofWord_toWord f.flags (by rw [hndims]; exact hs.rank_lt ht) hb.stored.slotSize_lt
  refine ⟨⟨⟨_, ht.extends he⟩, hslot (hword (j := 0) (by omega)), hword (j := 1) (by omega), ?_,
    hword (j := 3) (by omega)⟩, ?_, ?_, ?_, ?_⟩
  · rw [show flagsWord = 8 * 2 from rfl, hword (by omega)]
    exact hflags
  · rw [hndims]
    exact ht.extends he
  · rw [← hcount, hndims]
    congr 1
    refine List.ext_getElem (by simp) fun k hk hk' => ?_
    rw [List.getElem_map, List.getElem_range, hdim k hk']
  · rw [hndims]
    exact hslot howner
  · refine hr.bodySound_of hs hb fun _ hbuffer => ?_
    exact hs.ne_buffer ht hb.buffer hbuffer.symm

/-- A new array over a buffer that no array uses. -/
theorem Sound.built (hs : h.Sound) (ht : h.ArrayType a f.elem dims.length) (hb : h.BodySound f)
    (hndims : f.flags.ndims = dims.length) (hcount : elementCount dims = some f.length)
    (hcapacity : f.capacity < 0x10000000000000000) (hdims : ∀ d ∈ dims, d < 0x10000000000000000)
    (hsole : ∀ {b g}, h.IsArray b g → g.buffer ≠ f.buffer) : (h.putArray a f dims).Sound := by
  have hr : Rewrites (fun w _ => w = a) h (h.putArray a f dims) :=
    (putArray_writes hs ht fun _ => rfl).toRewrites
  obtain ⟨ha, hsound⟩ := arraySound_putArray hs ht hb hndims hcount hcapacity hdims
  exact hs.retarget hr (fun _ _ hw => hw) ht ha hsound fun hb _ => hsole hb

/-! ## Views -/

/-- What an array says once its buffer is shared. -/
def shared (f : ArrayInfo) : ArrayInfo := { f with flags := { f.flags with isShared := true } }

/-- What a view of an array says. -/
def viewOf (f : ArrayInfo) (dims : List Nat) : ArrayInfo :=
  { f with flags := { f.flags with ndims := dims.length, isShared := true } }

/-- The heap with a view of an array, and the array marked as shared. -/
def putView (h : Heap) (a v : Value) (f : ArrayInfo) (dims : List Nat) : Heap :=
  (h.putArray v (viewOf f dims) dims).putWord a flagsWord (shared f).flags.toWord

theorem putView_writes (hs : h.Sound) (ha : h.IsArray a f) (ht : h.ArrayType v f.elem dims.length)
    (hS : ∀ j, S v j) (hflags : ∀ j, flagsWord ≤ j → j < flagsWord + 8 → S a j) :
    Writes S h (h.putView a v f dims) := by
  have hr : Writes S h (h.putArray v (viewOf f dims) dims) := putArray_writes hs ht hS
  refine hr.trans (.putWord (hr.arena hs.arena)
    ((hr.size?_eq a).trans (hs.size_array (hs.arrays ha).type)) ?_ hflags)
  simp only [ownerOffset, refSize, flagsWord]
  omega

theorem sameBody_viewOf (f : ArrayInfo) (dims : List Nat) : f.SameBody (viewOf f dims) :=
  ⟨rfl, rfl, rfl, rfl, rfl, rfl⟩

theorem sameBody_shared (f : ArrayInfo) : f.SameBody (shared f) := ⟨rfl, rfl, rfl, rfl, rfl, rfl⟩

/-- Marking an array as shared changes its flags word and nothing else. -/
theorem arraySound_marked (ha : h.IsArray a f) (hsound : h.ArraySound a f)
    (hrank : f.flags.ndims < ArrayFlags.fieldLimit) (hend : a.offset + flagsWord + 8 ≤ h.memory.length)
    (he : h.Extends (h.putWord a flagsWord (shared f).flags.toWord))
    (hb : (h.putWord a flagsWord (shared f).flags.toWord).BodySound f) :
    (h.putWord a flagsWord (shared f).flags.toWord).IsArray a (shared f) ∧
      (h.putWord a flagsWord (shared f).flags.toWord).ArraySound a (shared f) := by
  have hword {k : Nat} (hk : k + 8 ≤ flagsWord ∨ flagsWord + 8 ≤ k) :
      (h.putWord a flagsWord (shared f).flags.toWord).word a k = h.word a k := word_putWord_outside hk
  refine ⟨⟨⟨_, hsound.type.extends he⟩, ?_, ?_, ?_, ?_⟩, hsound.type.extends he, ?_, ?_, ?_⟩
  · rw [slot, hword (by decide)]
    exact ha.buffer
  · rw [hword (by decide)]
    exact ha.length
  · rw [word_putWord hend (shared f).flags.toWord_lt]
    exact ArrayFlags.ofWord_toWord _ hrank hsound.body.stored.slotSize_lt
  · rw [hword (by decide)]
    exact ha.capacity
  · refine Eq.trans ?_ hsound.count
    congr 1
    refine List.map_congr_left fun k _ => hword (.inr ?_)
    simp only [dimWord, flagsWord]
    omega
  · rw [slot, hword (.inr (by simp only [ownerOffset, refSize, flagsWord]; omega))]
    exact hsound.owner
  · exact hb.sameBody (sameBody_shared f)

/-- A view describes the buffer as the array does, and both know that they share it. -/
theorem arraySound_putView (hs : h.Sound) (ha : h.IsArray a f) (ht : h.ArrayType v f.elem dims.length)
    (hne : a ≠ v) (hcount : elementCount dims = some f.length) (hcapacity : f.capacity < 0x10000000000000000)
    (hdims : ∀ d ∈ dims, d < 0x10000000000000000) :
    ((h.putView a v f dims).IsArray a (shared f) ∧ (h.putView a v f dims).ArraySound a (shared f)) ∧
      (h.putView a v f dims).IsArray v (viewOf f dims) ∧
        (h.putView a v f dims).ArraySound v (viewOf f dims) := by
  have hsound := hs.arrays ha
  have hsize := hs.size_array hsound.type
  have hr₁ : Rewrites (fun w _ => w = v) h (h.putArray v (viewOf f dims) dims) :=
    (putArray_writes hs ht fun _ => rfl).toRewrites
  have hr₂ : Rewrites (fun w _ => w = a) (h.putArray v (viewOf f dims) dims) (h.putView a v f dims) := by
    refine .putWord (hr₁.arena hs.arena) ((hr₁.size?_eq a).trans hsize) ?_ fun _ _ _ => rfl
    simp only [ownerOffset, refSize, flagsWord]
    omega
  have hr : Rewrites (fun w _ => w = a ∨ w = v) h (h.putView a v f dims) :=
    (hr₁.mono fun _ _ => .inr).trans (hr₂.mono fun _ _ => .inl)
  have hbuffer {w : Value} {rank : Nat} (hw : h.ArrayType w f.elem rank) : f.buffer ≠ w :=
    (hs.ne_buffer hw hsound.body.buffer).symm
  have hbody : (h.putView a v f dims).BodySound f :=
    hr.bodySound_of hs hsound.body fun _ heq => heq.elim (hbuffer hsound.type) (hbuffer ht)
  refine ⟨?_, ?_⟩
  · -- Until it is marked, the array is as it was.
    have hword (k : Nat) (hk : k ≤ ownerOffset f.flags.ndims) :
        (h.putArray v (viewOf f dims) dims).word a k = h.word a k :=
      hr₁.word_eq hsize (Nat.add_le_add_right hk _) fun _ _ _ heq => hne heq
    have ha₁ := ha.congr hr₁.extends fun k hk => hword k (Nat.le_trans hk (by
      simp only [capacityWord, ownerOffset, refSize]
      omega))
    have hbody₁ := hr₁.bodySound_of hs hsound.body fun _ => hbuffer ht
    have hend := Nat.le_trans (hs.end_le_top hsize) hs.arena.reach
    refine arraySound_marked ha₁ (hsound.of_body hr₁.extends hword hbody₁) (hs.rank_lt hsound.type) ?_
      hr₂.extends hbody
    rw [hr₁.length]
    simp only [ownerOffset, refSize, flagsWord] at hend ⊢
    omega
  · -- The words of the view are left alone when the array is marked.
    have hword (k : Nat) (hk : k ≤ ownerOffset dims.length) :
        (h.putView a v f dims).word v k = (h.putArray v (viewOf f dims) dims).word v k :=
      hr₂.word_eq ((hr₁.size?_eq v).trans (hs.size_array ht)) (Nat.add_le_add_right hk _)
        fun _ _ _ heq => hne heq.symm
    have hview : h.BodySound (viewOf f dims) := hsound.body.sameBody (sameBody_viewOf f dims)
    obtain ⟨hv, hvsound⟩ :=
      arraySound_putArray (f := viewOf f dims) hs ht hview rfl hcount hcapacity hdims
    have hv' := hv.congr hr₂.extends fun k hk => hword k (Nat.le_trans hk (by
      simp only [capacityWord, ownerOffset, refSize]
      omega))
    exact ⟨hv', hvsound.of_body hr₂.extends hword (hbody.sameBody (sameBody_viewOf f dims))⟩

/-- An array gets a view. -/
theorem Sound.viewed (hs : h.Sound) (ha : h.IsArray a f) (ht : h.ArrayType v f.elem dims.length)
    (hne : a ≠ v) (hcount : elementCount dims = some f.length) (hcapacity : f.capacity < 0x10000000000000000)
    (hdims : ∀ d ∈ dims, d < 0x10000000000000000) : (h.putView a v f dims).Sound := by
  have hr : Rewrites (fun w _ => w = a ∨ w = v) h (h.putView a v f dims) :=
    (putView_writes hs ha ht (fun _ => .inr rfl) fun _ _ _ => .inl rfl).toRewrites
  obtain ⟨⟨ha', hasound⟩, hv, hvsound⟩ := arraySound_putView hs ha ht hne hcount hcapacity hdims
  exact hs.view hr (fun _ _ hw => hw) ha ht ha' hasound hv hvsound (sameBody_shared f)
    ⟨rfl, rfl, (sameBody_shared f).symm.trans (sameBody_viewOf f dims)⟩

/-! ## Arrays of one dimension -/

/-- The heap with another buffer for an array of one dimension, which has room for `n` elements. -/
def putBuffer (h : Heap) (a buffer : Value) (n : Nat) : Heap :=
  ((h.putWord a bufferWord buffer.offset).putWord a (ownerOffset 1) buffer.offset).putWord a capacityWord n

/-- The heap with another length for an array of one dimension. -/
def putLength (h : Heap) (a : Value) (n : Nat) : Heap :=
  (h.putWord a lengthWord n).putWord a (dimWord 0) n

/-- An array of one dimension has six words. -/
theorem Sound.size_vectorArray (hs : h.Sound) (ha : h.IsArray a f) (hndims : f.flags.ndims = 1) :
    h.size? a = some 48 := by
  have hsize := hs.size_array (hs.arrays ha).type
  rwa [hndims] at hsize

theorem putBuffer_writes (hs : h.Sound) (ha : h.IsArray a f) (hndims : f.flags.ndims = 1)
    (hS : ∀ j, S a j) : Writes S h (h.putBuffer a buffer n) := by
  have hsize := hs.size_vectorArray ha hndims
  have hr₁ : Writes S h (h.putWord a bufferWord buffer.offset) :=
    .putWord hs.arena hsize (by decide) fun j _ _ => hS j
  have hr₂ : Writes S _ ((h.putWord a bufferWord buffer.offset).putWord a (ownerOffset 1) buffer.offset) :=
    .putWord (hr₁.arena hs.arena) ((hr₁.size?_eq a).trans hsize) (by decide) fun j _ _ => hS j
  have hr := hr₁.trans hr₂
  exact hr.trans (.putWord (hr.arena hs.arena) ((hr.size?_eq a).trans hsize) (by decide)
    fun j _ _ => hS j)

/-- The bytes that say how long an array of one dimension is. -/
def LengthByte (j : Nat) : Prop :=
  (lengthWord ≤ j ∧ j < lengthWord + 8) ∨ (dimWord 0 ≤ j ∧ j < dimWord 0 + 8)

theorem putLength_writes (hs : h.Sound) (ha : h.IsArray a f) (hndims : f.flags.ndims = 1)
    (hS : ∀ j, LengthByte j → S a j) : Writes S h (h.putLength a n) := by
  have hsize := hs.size_vectorArray ha hndims
  have hr : Writes S h (h.putWord a lengthWord n) :=
    .putWord hs.arena hsize (by decide) fun j hlo hhi => hS j (.inl ⟨hlo, hhi⟩)
  exact hr.trans (.putWord (hr.arena hs.arena) ((hr.size?_eq a).trans hsize) (by decide)
    fun j hlo hhi => hS j (.inr ⟨hlo, hhi⟩))

/-- An array that moved to another buffer describes that one. -/
theorem arraySound_putBuffer (hs : h.Sound) (ha : h.IsArray a f) (hndims : f.flags.ndims = 1)
    (hb : h.BodySound { f with buffer, capacity := n }) (hn : n < 0x10000000000000000) :
    (h.putBuffer a buffer n).IsArray a { f with buffer, capacity := n } ∧
      (h.putBuffer a buffer n).ArraySound a { f with buffer, capacity := n } := by
  have hsound := hs.arrays ha
  have hr : Rewrites (fun w _ => w = a) h (h.putBuffer a buffer n) :=
    (putBuffer_writes hs ha hndims fun _ => rfl).toRewrites
  have hlimit : a.offset + 48 ≤ h.memory.length :=
    Nat.le_trans (hs.end_le_top (hs.size_vectorArray ha hndims)) hs.arena.reach
  have hslot (k : Nat) (hk : (h.putBuffer a buffer n).word a k = buffer.offset) :
      (h.putBuffer a buffer n).slot a k = some buffer := by
    rw [slot, hk]
    exact Value.ofWord?_toWord (some buffer)
  have hfirst : (h.putBuffer a buffer n).word a bufferWord = buffer.offset := by
    rw [putBuffer, word_putWord_outside (by decide), word_putWord_outside (by decide),
      word_putWord (by rw [bufferWord]; omega) buffer.lt]
  have howner : (h.putBuffer a buffer n).word a (ownerOffset 1) = buffer.offset := by
    rw [putBuffer, word_putWord_outside (by decide),
      word_putWord (by rw [length_putWord]; exact hlimit) buffer.lt]
  have hcapacity : (h.putBuffer a buffer n).word a capacityWord = n := by
    rw [putBuffer, word_putWord (by rw [length_putWord, length_putWord, capacityWord]; omega) hn]
  have hword {k : Nat} (h1 : bufferWord + 8 ≤ k) (h2 : k + 8 ≤ capacityWord ∨ capacityWord + 8 ≤ k)
      (h3 : k + 8 ≤ ownerOffset 1) : (h.putBuffer a buffer n).word a k = h.word a k := by
    rw [putBuffer, word_putWord_outside h2, word_putWord_outside (.inl h3), word_putWord_outside (.inr h1)]
  have hsoundType : h.ArrayType a f.elem 1 := by
    rw [← hndims]
    exact hsound.type
  have hbody := hr.bodySound_of hs hb fun _ heq => hs.ne_buffer hsound.type hb.buffer heq.symm
  have hnew : (h.putBuffer a buffer n).IsArray a { f with buffer, capacity := n } := by
    refine ⟨⟨1, hsoundType.extends hr.extends⟩, hslot _ hfirst, ?_, ?_, hcapacity⟩
    · rw [hword (by decide) (by decide) (by decide)]
      exact ha.length
    · rw [hword (by decide) (by decide) (by decide)]
      exact ha.flags
  refine ⟨hnew, ?_, ?_, ?_, hbody⟩
  · exact hsound.type.extends hr.extends
  · have hcount := hsound.count
    rw [hndims] at hcount
    show elementCount ((List.range f.flags.ndims).map fun k => (h.putBuffer a buffer n).word a (dimWord k)) =
      some f.length
    rw [hndims, ← hcount]
    exact congrArg (fun x => elementCount [x]) (hword (by decide) (by decide) (by decide))
  · show (h.putBuffer a buffer n).slot a (ownerOffset f.flags.ndims) = some buffer
    rw [hndims]
    exact hslot _ howner

/-- The elements of an array move to a buffer that no array uses. -/
theorem Sound.moved (hs : h.Sound) (ha : h.IsArray a f) (hndims : f.flags.ndims = 1)
    (hb : h.BodySound { f with buffer, capacity := n }) (hn : n < 0x10000000000000000)
    (hsole : ∀ {b g}, h.IsArray b g → g.buffer ≠ buffer) : (h.putBuffer a buffer n).Sound := by
  have hr : Rewrites (fun w _ => w = a) h (h.putBuffer a buffer n) :=
    (putBuffer_writes hs ha hndims fun _ => rfl).toRewrites
  obtain ⟨ha', hsound⟩ := arraySound_putBuffer hs ha hndims hb hn
  exact hs.retarget hr (fun _ _ hw => hw) (hs.arrays ha).type ha' hsound fun hc _ => hsole hc

/-- An array of another length says so. -/
theorem arraySound_putLength (hs : h.Sound) (ha : h.IsArray a f) (hndims : f.flags.ndims = 1)
    (hb : h.BodySound { f with length := n }) (hn : n < 0x10000000000000000) :
    (h.putLength a n).IsArray a { f with length := n } ∧
      (h.putLength a n).ArraySound a { f with length := n } := by
  have hsound := hs.arrays ha
  have hr : Rewrites (fun w _ => w = a) h (h.putLength a n) :=
    (putLength_writes hs ha hndims fun _ _ => rfl).toRewrites
  have hlimit : a.offset + 48 ≤ h.memory.length :=
    Nat.le_trans (hs.end_le_top (hs.size_vectorArray ha hndims)) hs.arena.reach
  have hlength : (h.putLength a n).word a lengthWord = n := by
    rw [putLength, word_putWord_outside (by decide), word_putWord (by rw [lengthWord]; omega) hn]
  have hdim : (h.putLength a n).word a (dimWord 0) = n := by
    have hoffset : dimWord 0 = 32 := rfl
    rw [putLength, word_putWord (by rw [length_putWord, hoffset]; omega) hn]
  have hword {k : Nat} (h1 : k + 8 ≤ lengthWord ∨ lengthWord + 8 ≤ k)
      (h2 : k + 8 ≤ dimWord 0 ∨ dimWord 0 + 8 ≤ k) : (h.putLength a n).word a k = h.word a k := by
    rw [putLength, word_putWord_outside h2, word_putWord_outside h1]
  have hbody := hr.bodySound_of hs hb fun _ heq => hs.ne_buffer hsound.type hb.buffer heq.symm
  have hnew : (h.putLength a n).IsArray a { f with length := n } := by
    refine ⟨⟨_, hsound.type.extends hr.extends⟩, ?_, hlength, ?_, ?_⟩
    · rw [slot, hword (by decide) (by decide)]
      exact ha.buffer
    · rw [hword (by decide) (by decide)]
      exact ha.flags
    · rw [hword (by decide) (by decide)]
      exact ha.capacity
  refine ⟨hnew, ?_, ?_, ?_, hbody⟩
  · exact hsound.type.extends hr.extends
  · show elementCount ((List.range f.flags.ndims).map fun k => (h.putLength a n).word a (dimWord k)) = some n
    rw [hndims]
    show elementCount [(h.putLength a n).word a (dimWord 0)] = some n
    rw [hdim, elementCount_single (Nat.le_of_lt_succ hn)]
  · show (h.putLength a n).slot a (ownerOffset f.flags.ndims) = some f.buffer
    have howner := hsound.owner
    rw [hndims] at howner ⊢
    rw [slot, hword (by decide) (by decide)]
    exact howner

/-- An array of one dimension that shares its buffer with nobody gets another length. -/
theorem Sound.resized (hs : h.Sound) (ha : h.IsArray a f) (hndims : f.flags.ndims = 1)
    (hsole : f.flags.isShared = false) (hb : h.BodySound { f with length := n })
    (hn : n < 0x10000000000000000) : (h.putLength a n).Sound := by
  have hr : Rewrites (fun w _ => w = a) h (h.putLength a n) :=
    (putLength_writes hs ha hndims fun _ _ => rfl).toRewrites
  obtain ⟨ha', hsound⟩ := arraySound_putLength hs ha hndims hb hn
  refine hs.retarget hr (fun _ _ hw => hw) (hs.arrays ha).type ha' hsound fun {c g} hc hne hbuffer => ?_
  rcases hs.sharing ha hc hbuffer with heq | hshares
  · exact hne heq
  · have hleft := hshares.left
    rw [hsole] at hleft
    cases hleft

end TypedHeap.Heap
