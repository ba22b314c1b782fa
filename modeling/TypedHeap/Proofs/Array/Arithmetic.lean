import TypedHeap.Proofs.Array.Shape
import TypedHeap.Proofs.Heap.Arithmetic

/-!
# Where elements lie, computed in words

Only the size of a new buffer is computed with care. All other offsets into arrays are computed as they come, from
lengths, capacities and sizes of slots. These may be as large as words are: elements may take no bytes, and then an
array may have as many of them as a word counts. What keeps the arithmetic in range is that the slots and selectors
of an array lie in its buffer, and that buffers lie below the end of the heap.

* `InWords.get`, `getValue`, `set`, `setScalar`, `resize`, `push`: what is done to arrays, with its arithmetic
  written out.
* `ArrayInfo.InRange`: offsets up to the capacity are words.

Main results: `get_follows`, `getValue_follows`, `set_follows`, `setScalar_follows`, `resize_follows` and
`push_follows`, by which no step of the arithmetic leaves the range of words.
-/

namespace TypedHeap

open Heap WordM

/-! ## Written out -/

namespace InWords

/-- The offset of a buffer's first byte. -/
def start (b : Value) : WordM Nat := do
  ofAction (Action.look (·.expectType b Builtin.buffer))
  sum b.offset refSize

/-- The fixed part of an array, once it is known where its words lie. -/
def info (a : Value) : WordM ArrayInfo := do
  let d ← ofAction (Action.look (·.descriptor a))
  if d.kind = .array then
    let _ ← sum a.offset ArrayObject.flagsWord
    let _ ← sum a.offset ArrayObject.bufferWord
    let _ ← sum a.offset ArrayObject.lengthWord
    let _ ← sum a.offset ArrayObject.capacityWord
  ofAction (Action.look (ArrayObject.info · a))

/-- The number of elements. -/
def length (a : Value) : WordM Nat := do
  let f ← info a
  return f.length

/-! ### Elements -/

/-- The offset of a slot. -/
def slot (f : ArrayInfo) (base i : Nat) : WordM Nat := do
  let before ← product i f.flags.slotSize
  sum base before

/-- The offset of a selector byte. -/
def selector (f : ArrayInfo) (base i : Nat) : WordM Nat := do
  let slots ← product f.capacity f.flags.slotSize
  let first ← sum base slots
  sum first i

/-- What an array holds at an index. -/
def get (a : Value) (i : Nat) : WordM Datum := do
  let f ← info a
  ofAction (f.checkIndex i)
  let base ← start f.buffer
  let slot ← slot f base i
  match f.flags.storage with
  | .references => ofAction do
    match ← Action.look (·.readRef slot) with
    | some x => return .ref x
    | none => throw (.undefined ("array element " ++ toString i))
  | .flat => ofAction do
    return .bits f.elem (← Action.look (·.bytes slot f.flags.slotSize))
  | .selected =>
    let selector ← selector f base i
    ofAction do
      let t ← Action.look (ArrayObject.selected · f selector)
      let size ← Heap.sizeOf t
      return .bits t (← Action.look (·.bytes slot size))

/-- The value of the element at an index. -/
def getValue (a : Value) (i : Nat) : WordM Value := do
  match ← get a i with
  | .ref x => return x
  | .bits t bytes =>
    let f ← info a
    let base ← start f.buffer
    let slot ← slot f base i
    ofAction do
      let box ← Heap.allocate t 0
      Heap.copyBytes slot bytes.length box.offset
      return box

/-- Change the element at an index to a value. -/
def set (a : Value) (i : Nat) (x : Value) : WordM Unit := do
  let f ← info a
  ofAction (f.checkIndex i)
  let xt ← ofAction (Action.look (·.typeOf x))
  let base ← start f.buffer
  let slot ← slot f base i
  match f.flags.storage with
  | .references => ofAction do
    let fits ← Action.look (·.types.isa xt f.elem)
    if !fits then Action.look fun h => throw (h.types.mismatch f.elem xt)
    Heap.storeRef f.buffer slot x
  | .flat => ofAction do
    if xt ≠ f.elem then Action.look fun h => throw (h.types.mismatch f.elem xt)
    Heap.copyBytes x.offset f.flags.slotSize slot
  | .selected =>
    let member ← ofAction (Action.look (ArrayObject.selectorOf · f xt))
    let size ← ofAction (Heap.sizeOf xt)
    ofAction (Heap.copyBytes x.offset size slot)
    let rest ← sum slot size
    let width ← difference f.flags.slotSize size
    ofAction (Heap.clearBytes rest width)
    let selector ← selector f base i
    ofAction (Heap.writeBytes selector [member])

/-- Change the element at an index to a scalar. -/
def setScalar (a : Value) (i : Nat) (k : ScalarKind) (x : k.Carrier) : WordM Unit := do
  let f ← info a
  ofAction (f.checkIndex i)
  let base ← start f.buffer
  let slot ← slot f base i
  match f.flags.storage with
  | .references =>
    let box ← ofAction (Box.new k x)
    set a i box
  | .flat => ofAction do
    if f.elem ≠ k.type then Action.look fun h => throw (h.types.mismatch f.elem k.type)
    Heap.storeScalar slot k x
  | .selected =>
    let member ← ofAction (Action.look (ArrayObject.selectorOf · f k.type))
    let bs ← ofAction (Heap.encode k x)
    ofAction (Heap.clearBytes slot f.flags.slotSize)
    ofAction (Heap.writeBytes slot bs)
    let selector ← selector f base i
    ofAction (Heap.writeBytes selector [member])

/-! ### Lengths -/

/-- Clear the slots from `lo` up to `hi`, and their selectors. -/
def clearSlots (f : ArrayInfo) (lo hi : Nat) : WordM Unit := do
  let base ← start f.buffer
  let first ← slot f base lo
  let count ← difference hi lo
  let bytes ← product count f.flags.slotSize
  ofAction (Heap.clearBytes first bytes)
  if f.flags.storage = .selected then
    let first ← selector f base lo
    let count ← difference hi lo
    ofAction (Heap.clearBytes first count)

/-- Copy the slots in use, and their selectors, to a buffer of another capacity. -/
def moveSlots (f : ArrayInfo) (buffer : Value) (capacity : Nat) : WordM Unit := do
  let old ← start f.buffer
  let new ← start buffer
  let bytes ← product f.length f.flags.slotSize
  ofAction (Heap.copyBytes old bytes new)
  if f.flags.storage = .selected then
    let src ← selector f old 0
    let dst ← selector { f with capacity } new 0
    ofAction (Heap.copyBytes src f.length dst)

/-- Move the elements of an array of one dimension to a new buffer with room for `n` of them. -/
def grow (a : Value) (f : ArrayInfo) (n : Nat) : WordM Unit := do
  let capacity := ArrayObject.grownCapacity f.capacity n
  let some size := ArrayObject.bufferSize f.flags.storage f.flags.slotSize capacity
    | throw (.invalidArgument ("cannot grow array to " ++ toString n))
  let buffer ← ofAction (Buffer.new size)
  moveSlots f buffer capacity
  let word ← sum a.offset ArrayObject.bufferWord
  ofAction (Heap.writeRef word (some buffer))
  let word ← sum a.offset (ownerOffset 1)
  ofAction (Heap.writeRef word (some buffer))
  let word ← sum a.offset ArrayObject.capacityWord
  ofAction (Heap.writeWord word capacity)
  ofAction (Heap.writeBarrier a buffer)

/-- The length of an array of one dimension stands in two words. -/
def writeLength (a : Value) (n : Nat) : WordM Unit := do
  let word ← sum a.offset ArrayObject.lengthWord
  ofAction (Heap.writeWord word n)
  let word ← sum a.offset (ArrayObject.dimWord 0)
  ofAction (Heap.writeWord word n)

/-- Change the length of an array of one dimension. -/
def resize (a : Value) (n : Nat) : WordM Unit := do
  let f ← info a
  if f.flags.ndims ≠ 1 then
    throw (.invalidArgument ("cannot resize a " ++ toString f.flags.ndims ++ "-dimensional array"))
  if f.flags.isShared then
    throw (.invalidArgument "cannot resize an array whose buffer is shared")
  if n ≤ f.capacity then
    clearSlots f (min f.length n) (max f.length n)
  else
    grow a f n
  writeLength a n

/-- Append a value to an array of one dimension. -/
def push (a : Value) (x : Value) : WordM Unit := do
  let n ← length a
  if n = Heap.maxWord then throw (.invalidArgument "array length overflow")
  resize a (n + 1)
  (set a n x).recover fun e => do
    resize a n
    throw e

end InWords

/-! ## Ranges -/

/-- Where slots and selectors up to the capacity begin and end is a word. -/
structure ArrayInfo.InRange (f : ArrayInfo) : Prop where
  length_le : f.length ≤ f.capacity
  slots : f.buffer.offset + refSize + f.capacity * f.flags.slotSize ≤ maxWord
  selectors : f.flags.storage = .selected →
    f.buffer.offset + refSize + f.capacity * f.flags.slotSize + f.capacity ≤ maxWord

variable {h h' : Heap} {a b v x : Value} {f : ArrayInfo} {t : TypeRef} {i j k lo hi n : Nat}

namespace ArrayInfo.InRange

/-- An array that is as its description says has its slots and selectors in its buffer. -/
theorem of_body (hb : h.BodySound f) (hs : h.Sound) : f.InRange := by
  have hroom := hb.room_eq
  have htop := hs.end_le_top (hs.size_buffer hb.buffer)
  have hlimit := hs.arena.top_lt
  rw [slotOffset] at hroom
  refine ⟨hb.length_le, by rw [maxWord]; omega, fun hselected => ?_⟩
  rw [hselected, ElementStorage.selectorBytes] at hroom
  rw [maxWord]
  omega

variable (hf : f.InRange)

include hf

theorem start : f.buffer.offset + refSize ≤ maxWord := Nat.le_trans (Nat.le_add_right _ _) hf.slots

theorem before (hi : i ≤ f.capacity) : f.buffer.offset + refSize + i * f.flags.slotSize ≤ maxWord :=
  Nat.le_trans (Nat.add_le_add_left (Nat.mul_le_mul_right _ hi) _) hf.slots

/-- A slot ends where the next one begins. -/
theorem inside (hi : i < f.capacity) (hn : n ≤ f.flags.slotSize) :
    f.buffer.offset + refSize + i * f.flags.slotSize + n ≤ maxWord := by
  have hnext := hf.before (Nat.succ_le_of_lt hi)
  rw [Nat.succ_mul] at hnext
  omega

end ArrayInfo.InRange

namespace InWords

/-! ## What is written out follows what is done -/

theorem start_follows (hle : b.offset + refSize ≤ maxWord) : Follows (start b) (Action.look (Buffer.start · b)) h :=
  .ask (.ofAction _) fun _ _ => .sum hle

/-- All words of an array lie below the end of the heap. -/
theorem word_le {elem : TypeRef} {rank : Nat} (hs : h.Sound) (ht : h.ArrayType a elem rank)
    (hk : k ≤ ownerOffset rank) : a.offset + k ≤ maxWord := by
  have hend := hs.end_le_top (hs.size_array ht)
  have htop := hs.arena.top_lt
  rw [maxWord]
  omega

theorem info_follows (hs : h.Sound) (a : Value) : Follows (info a) (Action.look (ArrayObject.info · a)) h := by
  have hasked : (Action.look (ArrayObject.info · a)).runOn h =
      (Action.look (·.descriptor a) >>= fun _ => Action.look (ArrayObject.info · a)).runOn h := by
    cases hd : h.descriptor a with
    | error e =>
      rw [Action.runOn_bind_error (by rw [Action.runOn_look, hd]), Action.runOn_look, ArrayObject.info, hd]
      rfl
    | ok d => rw [Action.runOn_bind_ok (by rw [Action.runOn_look, hd])]
  refine .congr (.ask_bind (.ofAction _) fun d hd => ?_) hasked
  have htail : Follows (ofAction (Action.look (ArrayObject.info · a))) (Action.look (ArrayObject.info · a)) h := .ofAction _
  split
  · rename_i hkind
    obtain ⟨t, ht, hd⟩ := descriptor_eq_ok.1 hd
    obtain ⟨elem, n, hparams, hlo, -⟩ := hs.registry.types.array hd hkind
    have htype : h.ArrayType a elem n.toInt.toNat := ⟨t, d, n, ht, hd, hkind, hparams, (Int.toNat_of_nonneg hlo).symm⟩
    have hword {k : Nat} (hk : k ≤ ownerOffset 0) : a.offset + k ≤ maxWord :=
      word_le hs htype (Nat.le_trans hk (Nat.mul_le_mul_left _ (Nat.le_add_right 4 _)))
    refine .value_bind (.sum (hword (by decide))) (.value_bind (.sum (hword (by decide))) ?_)
    exact .value_bind (.sum (hword (by decide))) (.value_bind (.sum (hword (by decide))) htail)
  · exact htail

/-! ### Elements -/

theorem slot_follows (hf : f.InRange) (hi : i ≤ f.capacity) :
    Follows (slot f (f.buffer.offset + refSize) i) (pure (f.buffer.offset + refSize + f.slotOffset i)) h := by
  have hend := hf.before hi
  exact .value_bind (.product (by omega)) (.sum hend)

theorem selector_follows (hf : f.InRange) (hselected : f.flags.storage = .selected) (hi : i ≤ f.capacity) :
    Follows (selector f (f.buffer.offset + refSize) i) (pure (f.buffer.offset + refSize + f.selectorOffset i)) h := by
  have hend := hf.selectors hselected
  rw [ArrayInfo.selectorOffset, ← Nat.add_assoc]
  exact .value_bind (.product (by omega)) (.value_bind (.sum (by omega)) (.sum (by omega)))

/-- What comes after the slot of an element was found starts from a slot that lies in the buffer. -/
theorem slot_bind {α : Type} (hs : h.Sound) (ha : h.IsArray a f) (hi : i < f.length) {c : Nat → Nat → WordM α}
    {x : Nat → HeapM α} (hc : f.InRange → i < f.capacity → Follows
      (c (f.buffer.offset + refSize) (f.buffer.offset + refSize + f.slotOffset i)) (x (f.buffer.offset + refSize)) h) :
    Follows (start f.buffer >>= fun base => slot f base i >>= c base) (Action.look (Buffer.start · f.buffer) >>= x)
      h := by
  have hb := (hs.arrays ha).body
  have hrange := ArrayInfo.InRange.of_body hb hs
  have hi := Nat.lt_of_lt_of_le hi hb.length_le
  refine .ask_bind (start_follows hrange.start) fun base hbase => ?_
  obtain ⟨-, rfl⟩ := Buffer.start_eq_ok.1 hbase
  exact .value_bind (slot_follows hrange (Nat.le_of_lt hi)) (hc hrange hi)

theorem get_follows (hs : h.Sound) (a : Value) (i : Nat) : Follows (get a i) (ArrayObject.get a i) h := by
  unfold get ArrayObject.get
  refine .ask_bind (info_follows hs a) fun f hf => .lift_bind fun _ hi => ?_
  refine slot_bind hs (hs.info_iff.1 hf) (ArrayInfo.checkIndex_eq_ok.1 hi) fun hrange hi => ?_
  cases hstorage : f.flags.storage with
  | references => exact .ofAction _
  | flat => exact .ofAction _
  | selected => exact .value_bind (selector_follows hrange hstorage (Nat.le_of_lt hi)) (.ofAction _)

theorem getValue_follows (hs : h.Sound) (a : Value) (i : Nat) :
    Follows (getValue a i) (ArrayObject.getValue a i) h := by
  unfold getValue ArrayObject.getValue
  refine .bind (get_follows hs a i) fun d h₁ hrun => ?_
  cases d with
  | ref x => exact .pure x
  | bits t bs =>
    obtain ⟨hl, hanswer⟩ := (ArrayObject.get_meets hs a i).answered hrun
    obtain ⟨g, hg, hi, -⟩ := hanswer rfl
    have hs₁ := hs.learns hl
    refine .ask_bind (info_follows hs₁ a) fun f hf => ?_
    cases hg.unique (hs₁.info_iff.1 hf)
    exact slot_bind hs₁ hg hi fun _ _ => .ofAction _

theorem set_follows (hs : h.Sound) (a : Value) (i : Nat) (x : Value) :
    Follows (set a i x) (ArrayObject.set a i x) h := by
  unfold set ArrayObject.set
  refine .ask_bind (info_follows hs a) fun f hf => .lift_bind fun _ hi => .ask_bind (.ofAction _) fun t _ => ?_
  have ha := hs.info_iff.1 hf
  refine slot_bind hs ha (ArrayInfo.checkIndex_eq_ok.1 hi) fun hrange hi => ?_
  cases hstorage : f.flags.storage with
  | references => exact .ofAction _
  | flat => exact .ofAction _
  | selected =>
    refine .ask_bind (.ofAction _) fun m hm => .bind (.ofAction _) fun n h₁ hsize => ?_
    -- A member takes no more than the slot.
    obtain ⟨hl, hn⟩ := (sizeOf_meets t).answered hsize
    obtain ⟨d, _, hd, hmember, -⟩ := ArrayObject.selectorOf_eq_ok hm
    have hs₁ := hs.learns hl
    have hb₁ := (hs₁.arrays (hs.isArray_kept ha (hl.keeps fun _ _ => False) fun _ => id)).body
    obtain ⟨_, -, -, -, hle⟩ := hb₁.member_sized hstorage (hl.extends.descriptor hd) (List.mem_of_getElem? hmember) hn
    refine .bind (.ofAction _) fun _ _ _ => .value_bind (.sum (hrange.inside hi hle)) ?_
    refine .value_bind (.difference hle) (.bind (.ofAction _) fun _ _ _ => ?_)
    exact .value_bind (selector_follows hrange hstorage (Nat.le_of_lt hi)) (.ofAction _)

theorem setScalar_follows (hs : h.Sound) (a : Value) (i : Nat) (k : ScalarKind) (x : k.Carrier) :
    Follows (setScalar a i k x) (ArrayObject.setScalar a i k x) h := by
  unfold setScalar ArrayObject.setScalar
  refine .ask_bind (info_follows hs a) fun f hf => .lift_bind fun _ hi => ?_
  refine slot_bind hs (hs.info_iff.1 hf) (ArrayInfo.checkIndex_eq_ok.1 hi) fun hrange hi => ?_
  cases hstorage : f.flags.storage with
  | references =>
    refine .bind (.ofAction _) fun box h₁ hbox => ?_
    have hpath := ((Box.new_meets (S := fun w _ => ¬h.Live w) ⟨hs, fun hw _ => hw⟩ k x).answered hbox).1
    exact set_follows (hpath.sound hs) a i box
  | flat => exact .ofAction _
  | selected =>
    refine .ask_bind (.ofAction _) fun m _ => .bind (.ofAction _) fun bs _ _ => ?_
    refine .bind (.ofAction _) fun _ _ _ => .bind (.ofAction _) fun _ _ _ => ?_
    exact .value_bind (selector_follows hrange hstorage (Nat.le_of_lt hi)) (.ofAction _)

/-! ### Lengths -/

theorem clearSlots_follows (hf : f.InRange) (hle : lo ≤ hi) (hhi : hi ≤ f.capacity) :
    Follows (clearSlots f lo hi) (ArrayObject.clearSlots f lo hi) h := by
  have hbytes := hf.before (Nat.le_trans (Nat.sub_le hi lo) hhi)
  have hlo := Nat.le_trans hle hhi
  unfold clearSlots ArrayObject.clearSlots
  refine .ask_bind (start_follows hf.start) fun base hbase => ?_
  obtain ⟨-, rfl⟩ := Buffer.start_eq_ok.1 hbase
  refine .value_bind (slot_follows hf hlo) (.value_bind (.difference hle) ?_)
  refine .value_bind (.product (by omega)) (.bind (.ofAction _) fun _ _ _ => ?_)
  refine .ite (fun hselected => ?_) fun _ => .pure _
  exact .value_bind (selector_follows hf hselected hlo) (.value_bind (.difference hle) (.ofAction _))

theorem moveSlots_follows (hf : f.InRange) (hg : { f with buffer := b, capacity := n }.InRange) :
    Follows (moveSlots f b n) (ArrayObject.moveSlots f b n) h := by
  have hbytes := hf.before hf.length_le
  unfold moveSlots ArrayObject.moveSlots
  refine .ask_bind (start_follows hf.start) fun old hold => .ask_bind (start_follows hg.start) fun new hnew => ?_
  obtain ⟨-, rfl⟩ := Buffer.start_eq_ok.1 hold
  obtain ⟨-, rfl⟩ := Buffer.start_eq_ok.1 hnew
  refine .value_bind (.product (by omega)) (.bind (.ofAction _) fun _ _ _ => ?_)
  refine .ite (fun hselected => ?_) fun _ => .pure _
  refine .value_bind (selector_follows hf hselected (Nat.zero_le _)) ?_
  exact .value_bind (selector_follows hg hselected (Nat.zero_le _)) (.ofAction _)

theorem grow_follows (hs : h.Sound) (ha : h.IsArray a f) (hndims : f.flags.ndims = 1) (hn : f.capacity < n) :
    Follows (grow a f n) (ArrayObject.grow a f n) h := by
  have hb := (hs.arrays ha).body
  have hword {k : Nat} (hk : k ≤ ownerOffset 1) : a.offset + k ≤ maxWord :=
    word_le hs (hndims ▸ (hs.arrays ha).type) hk
  have hcapacity : f.length ≤ ArrayObject.grownCapacity f.capacity n :=
    Nat.le_trans hb.length_le (Nat.le_trans (Nat.le_of_lt hn) (Nat.le_max_left _ _))
  unfold grow ArrayObject.grow
  dsimp only
  cases hsize : ArrayObject.bufferSize f.flags.storage f.flags.slotSize (ArrayObject.grownCapacity f.capacity n) with
  | none => rfl
  | some size =>
    refine .bind (.ofAction _) fun buffer h₁ hmade => ?_
    -- The slots and selectors of the new buffer lie in it as those of the old one do.
    obtain ⟨hpath, hnew⟩ := (Buffer.new_meets (S := fun w _ => ¬h.Live w) ⟨hs, fun hw _ => hw⟩ size).answered hmade
    have hs₁ := hpath.sound hs
    have hstored := (hs₁.arrays (hs.isArray_kept ha hnew.kept fun _ => id)).body.stored
    have hbody : h₁.BodySound { f with buffer, capacity := ArrayObject.grownCapacity f.capacity n } :=
      ArrayObject.bodySound_of_new hnew hs₁ hstored hcapacity hsize
    refine .bind (moveSlots_follows (.of_body hb hs) (.of_body hbody hs₁)) fun _ _ _ => ?_
    refine .value_bind (.sum (hword (by decide))) (.bind (.ofAction _) fun _ _ _ => ?_)
    refine .value_bind (.sum (hword (by decide))) (.bind (.ofAction _) fun _ _ _ => ?_)
    exact .value_bind (.sum (hword (by decide))) (.bind (.ofAction _) fun _ _ _ => .ofAction _)

theorem resize_follows (hs : h.Sound) (a : Value) (n : Nat) : Follows (resize a n) (ArrayObject.resize a n) h := by
  unfold resize ArrayObject.resize
  refine .ask_bind (info_follows hs a) fun f hf => .ite (fun _ => rfl) fun hndims => .ite (fun _ => rfl) fun _ => ?_
  have ha := hs.info_iff.1 hf
  have hndims := Decidable.not_not.1 hndims
  have hlength {h' : Heap} : Follows (writeLength a n)
      (do Heap.writeWord (a.offset + ArrayObject.lengthWord) n; Heap.writeWord (a.offset + ArrayObject.dimWord 0) n)
      h' := by
    have hword {k : Nat} (hk : k ≤ ownerOffset 1) : a.offset + k ≤ maxWord :=
      word_le hs (hndims ▸ (hs.arrays ha).type) hk
    refine .value_bind (.sum (hword (by decide))) (.bind (.ofAction _) fun _ _ _ => ?_)
    exact .value_bind (.sum (hword (by decide))) (.ofAction _)
  refine .ite (fun hle => ?_) fun hroom => ?_
  · have hrange := ArrayInfo.InRange.of_body (hs.arrays ha).body hs
    have hbetween : min f.length n ≤ max f.length n := Nat.le_trans (Nat.min_le_left _ _) (Nat.le_max_left _ _)
    exact .bind (clearSlots_follows hrange hbetween (Nat.max_le.2 ⟨hrange.length_le, hle⟩)) fun _ _ _ => hlength
  · exact .bind (grow_follows hs ha hndims (Nat.not_le.1 hroom)) fun _ _ _ => hlength

theorem length_follows (hs : h.Sound) (a : Value) : Follows (length a) (Action.look (ArrayObject.length · a)) h :=
  .ask (info_follows hs a) fun _ _ => .pure _

theorem push_follows (hs : h.Sound) (a x : Value) : Follows (push a x) (ArrayObject.push a x) h := by
  unfold push ArrayObject.push
  refine .ask_bind (length_follows hs a) fun n hn => .ite (fun _ => rfl) fun hmax => ?_
  have hlt : n + 1 < 0x10000000000000000 := by
    obtain ⟨f, ha, rfl⟩ := ArrayObject.length_eq_ok hs.registry hn
    have hword := h.word_lt a ArrayObject.lengthWord
    rw [ha.length] at hword
    rw [maxWord] at hmax
    omega
  -- What the length is restored on is the heap that the refused store leaves.
  refine .bind (resize_follows hs a (n + 1)) fun _ h₁ hresized => ?_
  have hpath := ((ArrayObject.resize_meets (S := fun _ _ => True) ⟨hs, fun _ _ => trivial⟩ (fun _ _ => trivial)
    (fun _ _ => trivial) hlt).answered hresized).1
  have hs₁ := hpath.sound hs
  refine .recover (set_follows hs₁ a n x) fun e h₂ hfail => .bind (resize_follows ?_ a n) fun _ _ _ => rfl
  have hkept := (ArrayObject.set_meets (a := a) (S := fun _ _ => True) hs₁ (fun _ _ => trivial) n x).kept
  rw [hfail] at hkept
  exact hkept.sound hs₁

end InWords

end TypedHeap
