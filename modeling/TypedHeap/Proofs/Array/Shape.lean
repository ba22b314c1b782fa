import TypedHeap.Proofs.Array.Lengths
import TypedHeap.Proofs.Array.New

/-!
# Growing and reshaping arrays

An array that outgrows its buffer moves to another one, and its elements are the same there. An array that
cannot move is left alone.

* `Heap.Spare`: a buffer that no array uses yet.
* `ArrayObject.copyOut`, `redirect`: the two parts of a move: the copy, and the array that turns to it.
* `ArrayObject.runOn_moveSlots`, `grow_meets`: what a move keeps.
* `ArrayObject.Adjusted`: an array that got another length, in place or not.

Main results: `resize_meets`, `resize_ends`, `push_meets`, `reshape_meets`.
-/

namespace TypedHeap

open TypedHeap.Action (Meets Ends)
open Heap

variable {h h' : Heap} {a b v x buffer : Value} {f g : ArrayInfo} {t : TypeRef} {i j k n : Nat}
  {dims : List Nat} {S : Value → Nat → Prop} {bs : List UInt8}

/-! ## Other buffers -/

/-- A buffer that is as a description says, and that no array uses. -/
structure Heap.Spare (h : Heap) (g : ArrayInfo) : Prop where
  body : h.BodySound g
  sole : ∀ {b k}, h.IsArray b k → k.buffer ≠ g.buffer

/-- A spare buffer is filled. No array sees that. -/
theorem Heap.Spare.put (hg : h.Spare g) (hs : h.Sound) (hend : k + bs.length ≤ h.word g.buffer 0)
    (hvacant : ∀ j, j < bs.length → ¬g.Vacant (k + j))
    (hfits : g.flags.storage = .references → ∀ i, i < g.length →
      (g.slotOffset i + refSize ≤ k ∨ k + bs.length ≤ g.slotOffset i) ∨
        (h.put g.buffer (refSize + k) bs).Fits g.buffer (refSize + g.slotOffset i) g.elem)
    (hselectors : g.flags.storage = .selected → ∀ j (hj : j < bs.length),
      g.selectorOffset 0 ≤ k + j → h.registry.Selector g.elem bs[j]) :
    (h.put g.buffer (refSize + k) bs).Spare g ∧
      ∀ {a f}, h.IsArray a f → (h.put g.buffer (refSize + k) bs).IsArray a f := by
  have hb := hg.body
  have hr : Rewrites (fun w _ => w = g.buffer) h (h.put g.buffer (refSize + k) bs) :=
    .put hs.arena (hs.size_buffer hb.buffer) (by omega) fun _ _ _ => rfl
  refine ⟨⟨hb.put hs hend (fun j hj hv => absurd hv (hvacant j hj)) hfits hselectors, fun {b k} ha => ?_⟩, ?_⟩
  · obtain ⟨rank, ht⟩ := ha.type
    exact hg.sole (hr.isArray_of hs ha fun _ => hs.ne_buffer (hr.arrayType_iff.1 ht) hb.buffer)
  · exact fun ha => hs.isArray_kept ha hr.keeps fun _ => hs.ne_buffer (hs.arrays ha).type hb.buffer

/-- A slot in the copy holds what the slot holds that it is a copy of. -/
theorem Heap.byte_copySlots (hs : h.Sound) (hb : h.BodySound g) (hflags : g.flags = f.flags)
    (hlength : g.length = f.length) (hi : i < f.length) (hj : j < f.flags.slotSize) :
    (h.put g.buffer refSize (h.memory.window (f.buffer.offset + refSize)
      (f.length * f.flags.slotSize))).byte g.buffer (refSize + g.slotOffset i + j) =
        h.byte f.buffer (refSize + f.slotOffset i + j) := by
  have hslot (i : Nat) : g.slotOffset i = f.slotOffset i := by
    rw [ArrayInfo.slotOffset, ArrayInfo.slotOffset, hflags]
  have hroom := (hb.slots_end (Nat.zero_le _) hb.length_le).2
  have htop := hs.end_le_top (hs.size_buffer hb.buffer)
  have hreach := hs.arena.reach
  have hin := f.slot_end_le hi
  have hlen : (h.memory.window (f.buffer.offset + refSize) (f.length * f.flags.slotSize)).length =
      f.slotOffset f.length := Memory.length_window _ _ _
  rw [hlength, hslot] at hroom
  rw [Nat.add_assoc, byte_put_inside (by rw [hlen]; omega) (by rw [hlen, hslot]; omega),
    Memory.getElem_window, byte, hslot]
  simp only [Nat.add_assoc]

/-- The slots in use are copied to a spare buffer for as many elements of the same type. -/
theorem Heap.Spare.copySlots (hg : h.Spare g) (hs : h.Sound) (ha : h.IsArray a f)
    (helem : g.elem = f.elem) (hflags : g.flags = f.flags) (hlength : g.length = f.length) :
    (h.put g.buffer refSize
        (h.memory.window (f.buffer.offset + refSize) (f.length * f.flags.slotSize))).Spare g ∧
      ∀ {b k}, h.IsArray b k → (h.put g.buffer refSize
        (h.memory.window (f.buffer.offset + refSize) (f.length * f.flags.slotSize))).IsArray b k := by
  have hb := hg.body
  have hslotSize : g.flags.slotSize = f.flags.slotSize := by rw [hflags]
  have hslot (i : Nat) : g.slotOffset i = f.slotOffset i := by
    rw [ArrayInfo.slotOffset, ArrayInfo.slotOffset, hflags]
  have hroom := (hb.slots_end (Nat.zero_le _) hb.length_le).2
  have htop := hs.end_le_top (hs.size_buffer hb.buffer)
  have hreach := hs.arena.reach
  have hlen : (h.memory.window (f.buffer.offset + refSize) (f.length * f.flags.slotSize)).length =
      g.slotOffset g.length := by
    rw [Memory.length_window, hslot, hlength, ArrayInfo.slotOffset]
  refine hg.put (k := 0) hs (by rw [hlen]; omega) (fun j hj hv => ?_) (fun href i hi => .inr ?_)
    fun _ j hj hle => ?_
  · rw [hlen] at hj
    have hle : g.slotOffset g.length ≤ g.selectorOffset g.length :=
      g.slotOffset_le_selectorOffset hb.length_le
    rcases hv with ⟨hlo, -⟩ | ⟨-, hlo, -⟩ <;> omega
  · have href' : f.flags.storage = .references := by rw [← hflags]; exact href
    have hi' : i < f.length := by rw [← hlength]; exact hi
    have h8 := (hs.arrays ha).body.slotSize_references href'
    have hin := g.slot_end_le hi
    have he : h.Extends (h.put g.buffer refSize _) :=
      (Rewrites.put (S := fun _ _ => True) hs.arena (hs.size_buffer hb.buffer)
        (by rw [hlen]; omega) fun _ _ _ => trivial).extends
    have hword : (h.put g.buffer refSize (h.memory.window (f.buffer.offset + refSize)
        (f.length * f.flags.slotSize))).word g.buffer (refSize + g.slotOffset i) =
          h.word f.buffer (refSize + f.slotOffset i) :=
      word_eq_of_byte_eq fun j hj => byte_copySlots hs hb hflags hlength hi' (by omega)
    intro x hx
    rw [Nat.add_zero, slot, hword] at hx
    rw [helem]
    exact he.isa ((hs.arrays ha).body.fits href' i hi' x hx)
  · have hbefore : g.slotOffset g.length ≤ g.selectorOffset 0 := g.slotOffset_le_selectorOffset hb.length_le
    rw [hlen] at hj
    omega

/-- So are their selectors. -/
theorem Heap.Spare.copySelectors (hg : h.Spare g) (hs : h.Sound) (ha : h.IsArray a f)
    (hsel : f.flags.storage = .selected) (helem : g.elem = f.elem) (hflags : g.flags = f.flags)
    (hlength : g.length = f.length) :
    (h.put g.buffer (refSize + g.selectorOffset 0)
        (h.memory.window (f.buffer.offset + refSize + f.selectorOffset 0) f.length)).Spare g ∧
      ∀ {b k}, h.IsArray b k → (h.put g.buffer (refSize + g.selectorOffset 0)
        (h.memory.window (f.buffer.offset + refSize + f.selectorOffset 0) f.length)).IsArray b k := by
  have hb := hg.body
  have hsel' : g.flags.storage = .selected := by rw [hflags]; exact hsel
  have hend := hb.selector_end hsel' hb.length_le
  have hlen := Memory.length_window h.memory (f.buffer.offset + refSize + f.selectorOffset 0) f.length
  have hselector (j : Nat) : g.selectorOffset 0 + j = g.selectorOffset j := by
    simp only [ArrayInfo.selectorOffset]
    omega
  refine hg.put hs ?_ (fun j hj => ?_) (fun href => ?_) fun _ j hj _ => ?_
  · rw [hlen, hselector]
    simp only [ArrayInfo.selectorOffset] at hend ⊢
    omega
  · rw [hselector]
    exact ArrayInfo.not_vacant_selector (by omega)
  · rw [hsel'] at href
    cases href
  · rw [hlen] at hj
    have hselector := (hs.arrays ha).body.selectors hsel j hj
    rw [Memory.getElem_window, helem, Nat.add_assoc f.buffer.offset, Nat.add_assoc f.buffer.offset,
      Nat.add_assoc refSize]
    exact hselector

/-- A copy of a selector is the selector. -/
theorem Heap.byte_copySelectors (hs : h.Sound) (hb : h.BodySound g) (hsel : g.flags.storage = .selected)
    (hlength : g.length = f.length) (hi : i < f.length) :
    (h.put g.buffer (refSize + g.selectorOffset 0)
      (h.memory.window (f.buffer.offset + refSize + f.selectorOffset 0) f.length)).byte g.buffer
        (refSize + g.selectorOffset i) = h.byte f.buffer (refSize + f.selectorOffset i) := by
  have hend := hb.selector_end hsel hb.length_le
  have htop := hs.end_le_top (hs.size_buffer hb.buffer)
  have hreach := hs.arena.reach
  have hlen := Memory.length_window h.memory (f.buffer.offset + refSize + f.selectorOffset 0) f.length
  have hselector : refSize + g.selectorOffset i = refSize + g.selectorOffset 0 + i := by
    simp only [ArrayInfo.selectorOffset]
    omega
  simp only [ArrayInfo.selectorOffset] at hend
  rw [hselector, byte_put_inside (by rw [hlen, ArrayInfo.selectorOffset]; omega) (by rw [hlen]; exact hi),
    Memory.getElem_window, byte]
  simp only [ArrayInfo.selectorOffset, Nat.add_zero, Nat.add_assoc]

/-- The selectors are written behind the slots. -/
theorem Heap.byte_beforeSelectors (hb : h.BodySound g) (hi : i < g.length) (hj : j < g.flags.slotSize) :
    (h.put g.buffer (refSize + g.selectorOffset 0) bs).byte g.buffer (refSize + g.slotOffset i + j) =
      h.byte g.buffer (refSize + g.slotOffset i + j) := by
  have hin : g.slotOffset i + g.flags.slotSize ≤ g.slotOffset g.capacity :=
    g.slot_end_le (Nat.lt_of_lt_of_le hi hb.length_le)
  have hbefore : refSize + g.slotOffset i + j < refSize + g.selectorOffset 0 :=
    calc refSize + g.slotOffset i + j < refSize + g.slotOffset g.capacity := by omega
      _ ≤ refSize + g.selectorOffset 0 := Nat.add_le_add_left (Nat.le_add_right _ _) _
  exact byte_put_outside (.inl hbefore)

namespace ArrayObject

/-- The slots in use are copied to a spare buffer. -/
theorem runOn_copySlots (hs : h.Sound) (ha : h.IsArray a f)
    (hg : h.Spare { f with buffer, capacity := n }) (hS : ∀ j, S buffer j) :
    ∃ h', (copyBytes (f.buffer.offset + refSize) (f.length * f.flags.slotSize)
        (buffer.offset + refSize)).runOn h = (.ok ⟨⟩, h') ∧ Step S h h' ∧
      Rewrites (fun w _ => w = buffer) h h' ∧ h'.IsArray a f ∧ h'.Spare { f with buffer, capacity := n } ∧
        ∀ i, i < f.length → ∀ j, j < f.flags.slotSize → h'.byte buffer (refSize + f.slotOffset i + j) =
          h.byte f.buffer (refSize + f.slotOffset i + j) := by
  have hb := hg.body
  have hold := (hs.arrays ha).body
  have hroom : f.length * f.flags.slotSize ≤ h.word buffer 0 :=
    (hb.slots_end (Nat.zero_le _) hb.length_le).2
  have hroom' : f.length * f.flags.slotSize ≤ h.word f.buffer 0 :=
    (hold.slots_end (Nat.zero_le _) hold.length_le).2
  have htop : buffer.offset + (refSize + h.word buffer 0) ≤ h.top :=
    hs.end_le_top (hs.size_buffer hb.buffer)
  have htop' := hs.end_le_top (hs.size_buffer hold.buffer)
  have hfit : refSize + (h.memory.window (f.buffer.offset + refSize) (f.length * f.flags.slotSize)).length ≤
      refSize + h.word buffer 0 := by
    rw [Memory.length_window]
    omega
  obtain ⟨hg', harrays⟩ := hg.copySlots hs ha rfl rfl rfl
  refine ⟨_, runOn_copyBytes (by omega) (by omega), .buffer hb.buffer hg.sole (Nat.le_refl _) hfit hS,
    .put hs.arena (hs.size_buffer hb.buffer) hfit fun _ _ _ => rfl, harrays ha, hg', fun i hi j hj => ?_⟩
  exact byte_copySlots hs hb rfl rfl hi hj

/-- Their selectors are copied to the end of it. -/
theorem runOn_copySelectors (hs : h.Sound) (ha : h.IsArray a f) (hsel : f.flags.storage = .selected)
    (hg : h.Spare { f with buffer, capacity := n }) (hS : ∀ j, S buffer j) :
    ∃ h', (copyBytes (f.buffer.offset + refSize + f.selectorOffset 0) f.length
        (buffer.offset + refSize + ({ f with capacity := n } : ArrayInfo).selectorOffset 0)).runOn h =
          (.ok ⟨⟩, h') ∧ Step S h h' ∧
      Rewrites (fun w _ => w = buffer) h h' ∧ h'.IsArray a f ∧ h'.Spare { f with buffer, capacity := n } ∧
        (∀ i, i < f.length → ∀ j, j < f.flags.slotSize → h'.byte buffer (refSize + f.slotOffset i + j) =
          h.byte buffer (refSize + f.slotOffset i + j)) ∧
        ∀ i, i < f.length → h'.byte buffer (refSize + ({ f with capacity := n } : ArrayInfo).selectorOffset i) =
          h.byte f.buffer (refSize + f.selectorOffset i) := by
  have hb := hg.body
  have hold := (hs.arrays ha).body
  have hend := hb.selector_end hsel hb.length_le
  have htop : buffer.offset + (refSize + h.word buffer 0) ≤ h.top :=
    hs.end_le_top (hs.size_buffer hb.buffer)
  have hend' := hold.selector_end hsel hold.length_le
  have htop' := hs.end_le_top (hs.size_buffer hold.buffer)
  simp only [ArrayInfo.selectorOffset] at hend hend'
  have hfit : refSize + ({ f with capacity := n } : ArrayInfo).selectorOffset 0 +
      (h.memory.window (f.buffer.offset + refSize + f.selectorOffset 0) f.length).length ≤
        refSize + h.word buffer 0 := by
    rw [Memory.length_window]
    simp only [ArrayInfo.selectorOffset]
    omega
  have hcopy : (copyBytes (f.buffer.offset + refSize + f.selectorOffset 0) f.length
      (buffer.offset + (refSize + ({ f with capacity := n } : ArrayInfo).selectorOffset 0))).runOn h =
        (.ok ⟨⟩, h.put buffer (refSize + ({ f with capacity := n } : ArrayInfo).selectorOffset 0)
          (h.memory.window (f.buffer.offset + refSize + f.selectorOffset 0) f.length)) := by
    refine runOn_copyBytes ?_ ?_ <;> simp only [ArrayInfo.selectorOffset] <;> omega
  obtain ⟨hg', harrays⟩ := hg.copySelectors hs ha hsel rfl rfl rfl
  rw [Nat.add_assoc buffer.offset]
  refine ⟨_, hcopy, .buffer hb.buffer hg.sole (Nat.le_add_right _ _) hfit hS,
    .put hs.arena (hs.size_buffer hb.buffer) hfit fun _ _ _ => rfl, harrays ha, hg', fun i hi j hj => ?_,
    fun i hi => ?_⟩
  · exact byte_beforeSelectors hb hi hj
  · exact byte_copySelectors hs hb hsel rfl hi

/-- The elements in use are copied to a spare buffer, and their selectors. -/
theorem runOn_moveSlots (hs : h.Sound) (ha : h.IsArray a f)
    (hg : h.Spare { f with buffer, capacity := n }) (hS : ∀ j, S buffer j) :
    ∃ h', (moveSlots f buffer n).runOn h = (.ok ⟨⟩, h') ∧ Path S h h' ∧
      Rewrites (fun w _ => w = buffer) h h' ∧ h'.IsArray a f ∧ h'.Spare { f with buffer, capacity := n } ∧
        ∀ i, i < f.length → SameSlot h f h' { f with buffer, capacity := n } i := by
  have hold := (hs.arrays ha).body
  have hstart {v : Value} (hv : h.typeOf v = .ok Builtin.buffer) :
      (Action.look (Buffer.start · v)).runOn h = (.ok (v.offset + refSize), h) := by
    rw [Action.runOn_look, Buffer.start_eq_ok.2 ⟨hv, rfl⟩]
  obtain ⟨h₁, hcopy, step, hr, ha₁, hg₁, hslots⟩ := runOn_copySlots hs ha hg hS
  unfold moveSlots
  rw [Action.runOn_bind_ok (hstart hold.buffer), Action.runOn_bind_ok (hstart hg.body.buffer),
    Action.runOn_bind_ok hcopy]
  by_cases hsel : f.flags.storage = .selected
  · obtain ⟨h₂, hcopy', step', hr', ha₂, hg₂, hkept, hselectors⟩ :=
      runOn_copySelectors (step.sound hs) ha₁ hsel hg₁ hS
    have hr₂ := hr.trans hr'
    rw [if_pos hsel]
    refine ⟨h₂, hcopy', (Path.step step).tail step', hr₂, ha₂, hg₂, fun i hi => ?_⟩
    refine ⟨hr₂.extends.registry, rfl, rfl, rfl, fun j hj => (hkept i hi j hj).trans (hslots i hi j hj), fun _ => ?_⟩
    have hroom := hold.selector_end hsel (Nat.le_trans hi hold.length_le)
    have hin : refSize + f.selectorOffset i < refSize + h.word f.buffer 0 := Nat.add_lt_add_left hroom _
    exact (hselectors i hi).trans (hr.bytes (hs.size_buffer hold.buffer) hin fun heq => hg.sole ha heq)
  · rw [if_neg hsel]
    refine ⟨h₁, rfl, .step step, hr, ha₁, hg₁, fun i hi => ?_⟩
    exact ⟨hr.extends.registry, rfl, rfl, rfl, hslots i hi, fun hsel' => absurd hsel' hsel⟩

/-- A larger copy of the elements in use. -/
def copyOut (f : ArrayInfo) (size capacity : Nat) : HeapM Value := do
  let buffer ← Buffer.new size
  moveSlots f buffer capacity
  return buffer

/-- Let an array of one dimension describe another buffer. -/
def redirect (a : Value) (capacity : Nat) (buffer : Value) : HeapM Unit := do
  writeRef (a.offset + bufferWord) (some buffer)
  writeRef (a.offset + ownerOffset 1) (some buffer)
  writeWord (a.offset + capacityWord) capacity
  writeBarrier a buffer

theorem grow_eq {size : Nat}
    (hsize : bufferSize f.flags.storage f.flags.slotSize (grownCapacity f.capacity n) = some size) :
    grow a f n = copyOut f size (grownCapacity f.capacity n) >>=
      redirect a (grownCapacity f.capacity n) := by
  unfold grow copyOut
  simp only [hsize, bind_assoc, pure_bind]
  rfl

/-- The copy is made in a new buffer, which no array uses. -/
theorem copyOut_meets {size : Nat} (hr : Ready S h) (ha : h.IsArray a f) (hle : f.capacity ≤ n)
    (hsize : bufferSize f.flags.storage f.flags.slotSize n = some size) :
    Meets (Path S) (copyOut f size n) h fun buffer h' => ¬h.Live buffer ∧ h'.Young buffer ∧
      h'.IsArray a f ∧ h'.Spare { f with buffer, capacity := n } ∧ ∀ i, i < f.length →
        SameSlot h f h' { f with buffer, capacity := n } i ∧ SameSlot h' f h' { f with buffer, capacity := n } i := by
  have hs := hr.sound
  unfold copyOut
  refine Meets.bind (Buffer.new_meets hr size) fun buffer h₁ hp₁ hbuffer => ?_
  have hs₁ := (hr.along hp₁).sound
  have ha₁ := hs.isArray_kept ha hbuffer.kept fun _ => id
  have hbody : h₁.BodySound { f with buffer, capacity := n } :=
    bodySound_of_new hbuffer hs₁ (hs₁.arrays ha₁).body.stored
      (Nat.le_trans (hs.arrays ha).body.length_le hle) hsize
  have hspare : h₁.Spare { f with buffer, capacity := n } :=
    ⟨hbody, fun hb => sole_of_new hbuffer hs hb⟩
  obtain ⟨h₂, hrun, hp₂, hr₂, ha₂, hspare₂, hsame⟩ := runOn_moveSlots hs₁ ha₁ hspare (hr.fresh hbuffer.fresh)
  refine .of_runOn (Action.runOn_bind_ok hrun) hp₂ fun v hv => ?_
  cases hv
  refine ⟨hbuffer.fresh, (hp₂.ages hs₁).young _ hbuffer.young, ha₂, hspare₂, fun i hi => ?_⟩
  have hi' := Nat.lt_of_lt_of_le hi (hs.arrays ha).body.length_le
  have hcopy := hsame i hi
  have hself : SameSlot h₁ f h₂ f i :=
    hr₂.keeps.sameSlot hs₁ (hs₁.arrays ha₁).body hi' fun _ _ heq => hspare.sole ha₁ heq
  exact ⟨(hbuffer.kept.sameSlot hs (hs.arrays ha).body hi' fun _ _ => id).trans hcopy, hcopy.beside hself⟩

theorem runOn_redirect (hs : h.Sound) (ha : h.IsArray a f) (hndims : f.flags.ndims = 1)
    (hspare : h.Spare { f with buffer, capacity := n }) (hn : n < 0x10000000000000000) :
    (redirect a n buffer).runOn h = (.ok ⟨⟩, (h.putBuffer a buffer n).guarded a buffer) := by
  have hend := hs.end_le_top (hs.size_vectorArray ha hndims)
  have howner : ownerOffset 1 = 40 := rfl
  have hs' := hs.moved ha hndims hspare.body hn hspare.sole
  have ha' := (arraySound_putBuffer hs ha hndims hspare.body hn).1
  unfold redirect
  rw [Action.runOn_bind_ok (runOn_writeRef (by rw [bufferWord]; omega)),
    Action.runOn_bind_ok (runOn_writeRef (by rw [putWord, put_top, howner]; omega)),
    Action.runOn_bind_ok (runOn_writeWord (by simp only [putWord, put_top, capacityWord]; omega))]
  exact runOn_writeBarrier hs'.arena ha'.live (live_of_typeOf (hs'.arrays ha').body.buffer)

theorem grownCapacity_bounds {capacity : Nat} (hroom : capacity < n) (hn : n < 0x10000000000000000) :
    n ≤ grownCapacity capacity n ∧ capacity ≤ grownCapacity capacity n ∧
      grownCapacity capacity n < 0x10000000000000000 := by
  have hmax : Heap.maxWord < 0x10000000000000000 := by decide
  simp only [grownCapacity]
  omega

/-- An array of one dimension moves to a new buffer with more room. Its elements are the same there. -/
theorem grow_meets (hr : Ready S h) (ha : h.IsArray a f) (hndims : f.flags.ndims = 1)
    (hsole : f.flags.isShared = false) (hroom : f.capacity < n) (hn : n < 0x10000000000000000)
    (hS : ∀ j, S a j) :
    Meets (Path S) (grow a f n) h fun _ h' => ∃ buffer, ¬h.Live buffer ∧
      h'.IsArray a { f with buffer, capacity := grownCapacity f.capacity n } ∧
        ∀ i, i < f.length → SameSlot h f h' { f with buffer, capacity := grownCapacity f.capacity n } i := by
  have hs := hr.sound
  obtain ⟨-, hcapacity, hword⟩ := grownCapacity_bounds hroom hn
  cases hsize : bufferSize f.flags.storage f.flags.slotSize (grownCapacity f.capacity n) with
  | none =>
    unfold grow
    dsimp only
    rw [hsize]
    exact Meets.throw _
  | some size =>
    rw [grow_eq hsize]
    generalize grownCapacity f.capacity n = m at hcapacity hword hsize
    refine Meets.bind (copyOut_meets hr ha hcapacity hsize) fun buffer h₁ hp₁ hcopied => ?_
    obtain ⟨hfresh, hyoung, ha₁, hspare, hsame⟩ := hcopied
    have hs₁ := (hr.along hp₁).sound
    have step : Step S h₁ ((h₁.putBuffer a buffer m).guarded a buffer) :=
      .arrayMoved ha₁ hndims hsole hspare.body hword hspare.sole hyoung (fun i hi => (hsame i hi).2) hS
    have hs₂ := hs₁.moved ha₁ hndims hspare.body hword hspare.sole
    have ha₂ := (arraySound_putBuffer hs₁ ha₁ hndims hspare.body hword).1
    have hk : Keeps (fun w _ => w = a) h₁ ((h₁.putBuffer a buffer m).guarded a buffer) :=
      ((putBuffer_writes hs₁ ha₁ hndims fun _ => rfl).toRewrites.trans (.guarded hs₂.arena a buffer)).keeps
    refine .of_runOn (runOn_redirect hs₁ ha₁ hndims hspare hword) (.step step) fun _ _ => ?_
    refine ⟨buffer, hfresh, hs₂.isArray_guarded ha₂, fun i hi => (hsame i hi).1.trans ?_⟩
    have hi' : i < m := Nat.lt_of_lt_of_le hi hspare.body.length_le
    exact hk.sameSlot hs₁ hspare.body hi' fun _ _ heq =>
      hs₁.ne_buffer (hs₁.arrays ha₁).type hspare.body.buffer heq.symm

/-- An array that cannot move is left alone. -/
theorem grow_fails (hs : h.Sound) (ha : h.IsArray a f) (hndims : f.flags.ndims = 1)
    (hroom : f.capacity < n) (hn : n < 0x10000000000000000) :
    Ends (grow a f n) h (fun _ _ => True) (Path (fun w _ => ¬h.Live w) h) := by
  obtain ⟨-, hcapacity, hword⟩ := grownCapacity_bounds hroom hn
  cases hsize : bufferSize f.flags.storage f.flags.slotSize (grownCapacity f.capacity n) with
  | none =>
    unfold grow
    dsimp only
    rw [hsize]
    exact Ends.throw _ .refl
  | some size =>
    rw [grow_eq hsize]
    have hnew : Ready (fun w _ => ¬h.Live w) h := ⟨hs, fun hv _ => hv⟩
    refine Ends.bind (Ends.of_meets (copyOut_meets hnew ha hcapacity hsize)) fun buffer h₁ hcopied => ?_
    obtain ⟨hp₁, -, -, ha₁, hspare, -⟩ := hcopied
    exact .of_ok (runOn_redirect (hp₁.sound hs) ha₁ hndims hspare hword) trivial

/-- An array that moved is ready for the length that it moved for. -/
theorem resized_grow (hs : h'.Sound) (ha : h'.IsArray a { f with buffer, capacity := k })
    (hle : f.length ≤ n) (hn : n ≤ k)
    (hsame : ∀ i, i < f.length → SameSlot h f h' { f with buffer, capacity := k } i) :
    h'.BodySound { f with buffer, capacity := k, length := n } ∧
      Resized h f h' { f with buffer, capacity := k, length := n } := by
  have hb := (hs.arrays ha).body
  refine ⟨hb.resize hn fun hshrink => absurd hle (Nat.not_le.2 hshrink), rfl, rfl,
    fun i hi _ => (hsame i hi).withLength, fun i hi hi' j hj => hb.vacant j ?_⟩
  have hi' : i < n := hi'
  have hj : ({ f with buffer, capacity := k } : ArrayInfo).Between i (i + 1) j := hj
  exact hj.mono hi (Nat.le_trans hi' hn)

/-- What becomes of an array of one dimension that gets another length: it stays in its buffer if there is room, and
moves to a new one otherwise. -/
inductive Adjusted (h : Heap) (a : Value) (f : ArrayInfo) (n : Nat) (h' : Heap) : ArrayInfo → Prop
  | inPlace (room : n ≤ f.capacity) (writes : Writes (Lengthening a f n) h h') :
      Adjusted h a f n h' { f with length := n }
  | moved {buffer : Value} (full : f.capacity < n) (fresh : ¬h.Live buffer)
      (path : Path (fun w _ => w = a ∨ ¬h.Live w) h h') :
      Adjusted h a f n h' { f with buffer, capacity := grownCapacity f.capacity n, length := n }

/-- The array has its buffer still, or a new one, and the elements that it keeps are the same. -/
theorem resize_meets (hr : Ready S h) (hS : ∀ {f}, h.IsArray a f → ∀ j, S a j)
    (hSb : ∀ {f}, h.IsArray a f → ∀ j, S f.buffer j) (hn : n < 0x10000000000000000) :
    Meets (Path S) (resize a n) h fun _ h' => ∃ f g, h.IsArray a f ∧ h'.IsArray a g ∧
      (g.buffer = f.buffer ∨ ¬h.Live g.buffer) ∧ g.length = n ∧ Resized h f h' g := by
  have hs := hr.sound
  unfold resize
  refine Meets.look_bind fun f hf => ?_
  have ha := isArray_of_info hs.registry hf
  have hS := hS ha
  have hSb := hSb ha
  refine Meets.guard fun hndims => Meets.guard fun hsole => ?_
  have hndims := Decidable.not_not.1 hndims
  have hsole : f.flags.isShared = false := by simpa using hsole
  refine Meets.ite (fun hle => ?_) fun hroom => ?_
  · obtain ⟨h', hrun, hp, -, ha', hresized⟩ := runOn_setLength hs ha hndims hsole hle hS hSb
    exact .of_runOn hrun hp fun _ _ => ⟨f, _, ha, ha', .inl rfl, rfl, hresized⟩
  · have hlength := (hs.arrays ha).body.length_le
    have hgrow := grow_meets hr ha hndims hsole (Nat.not_le.1 hroom) hn hS
    refine Meets.bind hgrow fun _ h₁ hp₁ hgrown => ?_
    obtain ⟨buffer, hfresh, ha₁, hsame⟩ := hgrown
    obtain ⟨hle, -, -⟩ := grownCapacity_bounds (Nat.not_le.1 hroom) hn
    have hs₁ := hp₁.sound hs
    obtain ⟨hb₁, hresized⟩ := resized_grow hs₁ ha₁ (by omega) hle hsame
    obtain ⟨hp', ha', hr'⟩ := resized_putLength hresized hs₁ ha₁ hndims hsole hb₁ hS
    exact .of_runOn (runOn_writeLength hs₁ ha₁ hndims) hp' fun _ _ =>
      ⟨f, _, ha, ha', .inr hfresh, rfl, hr'⟩

/-- An array that has room gets its length in place. -/
theorem runOn_resize (hs : h.Sound) (ha : h.IsArray a f) (hndims : f.flags.ndims = 1)
    (hsole : f.flags.isShared = false) (hle : n ≤ f.capacity) :
    ∃ h', (resize a n).runOn h = (.ok ⟨⟩, h') ∧ h'.Sound ∧ h'.IsArray a { f with length := n } ∧
      Writes (Lengthening a f n) h h' := by
  obtain ⟨h', hrun, hp, hwrites, ha', -⟩ := runOn_setLength (S := fun _ _ => True) hs ha hndims hsole hle
    (fun _ => trivial) fun _ => trivial
  refine ⟨h', ?_, hp.sound hs, ha', hwrites⟩
  unfold resize
  rw [Action.runOn_bind_ok (hs.runOn_info ha), if_neg (not_not_intro hndims), hsole, if_neg (by decide), if_pos hle]
  exact hrun

/-- Whoever cannot be resized is left alone: an array that is shared, one of other dimensions, or one that
has no room. -/
theorem resize_ends (hs : h.Sound) (ha : h.IsArray a f) (hn : n < 0x10000000000000000) :
    Ends (resize a n) h
      (fun _ h' => f.flags.ndims = 1 ∧ f.flags.isShared = false ∧ h'.Sound ∧
        ∃ g, h'.IsArray a g ∧ Adjusted h a f n h' g)
      fun h' => Path (fun w _ => ¬h.Live w) h h' ∧
        ¬(f.flags.ndims = 1 ∧ f.flags.isShared = false ∧ n ≤ f.capacity) := by
  by_cases hfit : f.flags.ndims = 1 ∧ f.flags.isShared = false ∧ n ≤ f.capacity
  · obtain ⟨hndims, hsole, hle⟩ := hfit
    obtain ⟨h', hrun, hs', ha', hwrites⟩ := runOn_resize hs ha hndims hsole hle
    exact .of_ok hrun ⟨hndims, hsole, hs', _, ha', .inPlace hle hwrites⟩
  unfold resize
  refine Ends.bind_ok (hs.runOn_info ha) (Ends.guard (fun _ => ⟨.refl, hfit⟩) fun hndims => ?_)
  refine Ends.guard (fun _ => ⟨.refl, hfit⟩) fun hsole => ?_
  have hndims := Decidable.not_not.1 hndims
  have hsole : f.flags.isShared = false := by simpa using hsole
  have hroom : f.capacity < n := Nat.not_le.1 fun hle => hfit ⟨hndims, hsole, hle⟩
  have hready : Ready (fun w _ => w = a ∨ ¬h.Live w) h := ⟨hs, fun hv _ => .inr hv⟩
  have hgrow := (grow_fails hs ha hndims hroom hn).and
    (Ends.of_meets (grow_meets hready ha hndims hsole hroom hn fun _ => .inl rfl))
  rw [if_neg (Nat.not_le.2 hroom)]
  refine Ends.bind (hgrow.mono (fun _ _ => id) fun _ hp => ⟨hp.1, hfit⟩) fun _ h₁ hgrown => ?_
  obtain ⟨-, hp₁, buffer, hfresh, ha₁, hsame⟩ := hgrown
  have hs₁ := hp₁.sound hs
  have hlength := (hs.arrays ha).body.length_le
  obtain ⟨hb₁, hresized⟩ := resized_grow hs₁ ha₁ (by omega) (grownCapacity_bounds hroom hn).1 hsame
  obtain ⟨hp', ha', -⟩ := resized_putLength (S := fun w _ => w = a ∨ ¬h.Live w) hresized hs₁ ha₁ hndims hsole
    hb₁ fun _ => .inl rfl
  have hpath : Path (fun w _ => w = a ∨ ¬h.Live w) h (h₁.putLength a n) := hp₁.trans hp'
  exact .of_ok (runOn_writeLength hs₁ ha₁ hndims)
    ⟨hndims, hsole, hpath.sound hs, _, ha', .moved hroom hfresh hpath⟩

theorem length_eq_ok (hs : h.registry.Sound) (hn : length h a = .ok n) :
    ∃ f, h.IsArray a f ∧ f.length = n := by
  obtain ⟨f, hf, hn⟩ := bind_eq_ok.1 hn
  exact ⟨f, isArray_of_info hs hf, pure_eq_ok.1 hn⟩

/-- A value that does not fit is appended and removed again. -/
theorem push_meets (hr : Ready S h) (hS : ∀ {f}, h.IsArray a f → ∀ j, S a j)
    (hSb : ∀ {f}, h.IsArray a f → ∀ j, S f.buffer j) (x : Value) :
    Meets (Path S) (push a x) h fun _ _ => True := by
  unfold push
  refine Meets.look_bind fun n hn => Meets.guard fun hmax => ?_
  obtain ⟨f, ha, rfl⟩ := length_eq_ok hr.sound.registry hn
  have hlt := h.word_lt a lengthWord
  rw [ha.length] at hlt
  have hmaxWord : Heap.maxWord = 0x10000000000000000 - 1 := rfl
  refine Meets.bind (resize_meets hr hS hSb (by omega)) fun _ h₁ hp₁ hresized => ?_
  obtain ⟨f', g, ha', hg, hbuffer⟩ := hresized
  have hr₁ := hr.along hp₁
  have hSg : ∀ j, S g.buffer j := by
    rcases hbuffer with heq | hfresh
    · rw [heq]
      exact hSb ha'
    · exact hr.fresh hfresh
  refine Meets.recover (set_meets hr₁.sound (fun hg' => ?_) _ x) fun e h₂ hrun hp₂ => ?_
  · rw [hg.unique hg']
    exact hSg
  · have hg₂ := set_isArray hr₁.sound hg f.length x
    rw [hrun] at hg₂
    have hback : Meets (Path S) (resize a f.length) h₂ _ :=
      resize_meets (hr₁.along hp₂) (fun _ => hS ha) (fun hg' => by rw [hg₂.unique hg']; exact hSg) hlt
    exact Meets.bind hback fun _ _ _ _ => Meets.throw e

/-! ## Views -/

theorem owner_eq_ok (hs : h.registry.Sound) (ha : h.IsArray a f) (hv : owner h a = .ok v) :
    h.slot a (ownerOffset f.flags.ndims) = some v := by
  unfold owner at hv
  obtain ⟨g, hg, hv⟩ := bind_eq_ok.1 hv
  cases ha.unique (isArray_of_info hs hg)
  obtain ⟨r, hr, hv⟩ := bind_eq_ok.1 hv
  obtain ⟨-, rfl⟩ := readRef_eq_ok.1 hr
  split at hv
  · rename_i w hw
    cases hv
    exact hw
  · cases hv

/-- The owner of an array is its buffer. -/
theorem eq_buffer_of_owner (hs : h.Sound) (ha : h.IsArray a f) (hv : owner h a = .ok v) : v = f.buffer := by
  have howner := owner_eq_ok hs.registry ha hv
  rw [(hs.arrays ha).owner] at howner
  exact (Option.some.inj howner).symm

/-- The words of a new view are written, and the array is marked as shared. -/
theorem runOn_buildView (hs : h.Sound) (ha : h.IsArray a f) (ht : h.ArrayType v f.elem dims.length) :
    (do
      writeAll v (viewOf f dims) dims f.buffer
      writeWord (a.offset + flagsWord) (shared f).flags.toWord
      return v : HeapM Value).runOn h = (.ok v, h.putView a v f dims) := by
  have hend := hs.end_le_top (hs.size_array (hs.arrays ha).type)
  have hwords : (writeAll v (viewOf f dims) dims f.buffer).runOn h =
      (.ok ⟨⟩, h.putArray v (viewOf f dims) dims) := runOn_writeAll (hs.end_le_top (hs.size_array ht))
  have hmark : (writeWord (a.offset + flagsWord) (shared f).flags.toWord).runOn
      (h.putArray v (viewOf f dims) dims) = (.ok ⟨⟩, h.putView a v f dims) := by
    refine runOn_writeWord ?_
    rw [putArray, putWords_top, flagsWord]
    simp only [ownerOffset, refSize] at hend
    omega
  exact (Action.runOn_bind_ok hwords).trans (Action.runOn_bind_ok hmark)

theorem reshape_meets (hr : Ready S h)
    (hS : ∀ {f}, h.IsArray a f → ∀ j, flagsWord ≤ j → j < flagsWord + 8 → S a j)
    (hdims : ∀ d ∈ dims, d < 0x10000000000000000) :
    Meets (Path S) (reshape a dims) h fun v h' => ¬h.Live v ∧
      ∃ f, h.IsArray a f ∧ h'.IsArray a (shared f) ∧ h'.IsArray v (viewOf f dims) := by
  have hs := hr.sound
  unfold reshape
  refine Meets.look_bind fun f hf => Meets.guard fun hcount => Meets.look_bind fun keeper hkeeper => ?_
  have ha := isArray_of_info hs.registry hf
  have hcount := Decidable.not_not.1 hcount
  obtain rfl := eq_buffer_of_owner hs ha hkeeper
  have hfamily := onTypes_meets (h := h) (TypeTable.arrayType_meets hs.registry.types f.elem dims.length)
  refine learns_bind hfamily fun t h₁ hl ht => ?_
  have hr₁ := hr.learns hl
  have ha₁ := hs.isArray_learns ha hl
  refine Meets.bind (allocate_meets hr₁ t dims.length) fun view h₂ hp₂ hview => ?_
  have hs₂ := (hr₁.along hp₂).sound
  have ha₂ := hr₁.sound.isArray_kept ha₁ hview.kept fun _ => id
  have htype := arrayType_of_new hview (ht.stands.extends hview.kept.registry.types)
  have hne : a ≠ view := by
    rintro rfl
    exact hview.fresh ha₁.live
  have hfresh : ¬h.Live view := fun hlive => hview.fresh (hl.extends.live hlive)
  have step : Step S h₂ (h₂.putView a view f dims) :=
    .arrayViewed ha₂ htype hne hcount hdims hview.young (hr.fresh hfresh) (hS ha)
  have hcapacity := h₂.word_lt a capacityWord
  rw [ha₂.capacity] at hcapacity
  refine .of_runOn (runOn_buildView hs₂ ha₂ htype) (.step step) fun v hv => ?_
  cases hv
  obtain ⟨⟨ha', -⟩, hv', -⟩ := arraySound_putView hs₂ ha₂ htype hne hcount hcapacity hdims
  exact ⟨hfresh, f, ha, ha', hv'⟩

end ArrayObject

end TypedHeap
