import TypedHeap.Array.Basic
import TypedHeap.Proofs.Object.Box

/-!
# New arrays

The words of an array are written one by one, and together they describe its buffer.

* `ArrayObject.runOn_writeAll`: all words of an array are written.
* `ArrayObject.new_meets`, `newVector_meets`: new arrays.
-/

namespace TypedHeap.ArrayObject

open TypedHeap.Action (Meets)
open Heap
open TypeTable (arrayType_meets)

variable {h h' : Heap} {a v : Value} {f : ArrayInfo} {elem t : TypeRef} {dims : List Nat} {m n k : Nat}
  {S : Value → Nat → Prop}

/-! ## Writing the words -/

theorem runOn_writeDims (hend : a.offset + dimWord k + 8 * dims.length ≤ h.top) :
    (writeDims a k dims).runOn h = (.ok ⟨⟩, h.putWords a (dimWord k) dims) := by
  induction dims generalizing h k with
  | nil => rfl
  | cons d dims ih =>
    rw [List.length_cons] at hend
    have hnext : dimWord (k + 1) = dimWord k + 8 := by
      simp only [dimWord, refSize]
      omega
    rw [writeDims, Action.runOn_bind_ok (runOn_writeWord (by omega)),
      ih (by rw [hnext, putWord, put_top]; omega), putWords, hnext]

theorem runOn_writeAll (hend : a.offset + ownerOffset dims.length + 8 ≤ h.top) :
    (writeAll a f dims f.buffer).runOn h = (.ok ⟨⟩, h.putArray a f dims) := by
  have htop {k n : Nat} {h : Heap} : (h.putWord a k n).top = h.top := put_top
  have hwords {k : Nat} {ns : List Nat} {h : Heap} : (h.putWords a k ns).top = h.top := putWords_top
  simp only [ownerOffset, refSize] at hend
  unfold writeAll
  rw [Action.runOn_bind_ok (runOn_writeRef (by rw [bufferWord]; omega)),
    Action.runOn_bind_ok (runOn_writeWord (by rw [htop, lengthWord]; omega)),
    Action.runOn_bind_ok (runOn_writeWord (by simp only [htop, flagsWord]; omega)),
    Action.runOn_bind_ok (runOn_writeWord (by simp only [htop, capacityWord]; omega)),
    Action.runOn_bind_ok (runOn_writeDims (by simp only [htop, dimWord]; omega)),
    runOn_writeRef (by simp only [htop, hwords, ownerOffset, refSize]; omega)]
  have howner : ownerOffset dims.length = 0 + 8 * ([f.buffer.offset, f.length, f.flags.toWord, f.capacity] ++ dims).length := by
    simp only [ownerOffset, refSize, List.length_append, List.length_cons, List.length_nil]
    omega
  rw [putArray, arrayWords, putWords_append, putWords_append, ← howner]
  rfl

/-! ## New objects as parts of arrays -/

/-- A new object of an array type has as many dimensions as were asked for. -/
theorem arrayType_of_new (hv : NewObject h h' v t n)
    (ht : h'.types.Stands Builtin.arrayFamily [.type elem, .int (Int64.ofNat n)] t) :
    h'.ArrayType v elem n := by
  obtain ⟨d, hd, hfamily, hparams⟩ := ht
  have hkind : d.kind = .array := by
    rw [Descriptor.kind, hfamily]
    rfl
  obtain ⟨p, hp, hrank⟩ := hv.rank hd hkind
  rw [hparams] at hp
  cases hp
  exact ⟨t, d, _, hv.type, hd, hkind, hparams, hrank⟩

/-- A new buffer is as any array that it has room for describes it. -/
theorem bodySound_of_new (hb : NewObject h h' f.buffer Builtin.buffer n) (hs : h'.Sound)
    (hstored : h'.registry.Stored f.elem f.flags.storage f.flags.slotSize)
    (hle : f.length ≤ f.capacity)
    (hsize : bufferSize f.flags.storage f.flags.slotSize f.capacity = some n) : h'.BodySound f := by
  have hd := hs.descriptor_buffer
  have hzero (j : Nat) : h'.byte f.buffer (refSize + j) = 0 := hb.zero hd fun _ => Nat.le_add_right _ _
  refine ⟨hstored, hle, hb.type, by rw [hsize, hb.length hd rfl], fun j _ => hzero j, ?_, ?_⟩
  · intro _ i _
    refine fits_of_none (slot_eq_none_of_zero (word_eq_zero fun j hj _ => ?_))
    obtain ⟨m, rfl⟩ := Nat.exists_eq_add_of_le (Nat.le_trans (Nat.le_add_right refSize _) hj)
    exact hzero m
  · intro hsel i _
    rw [hsel] at hstored
    rw [hzero]
    exact hstored.selector_zero

/-- No array uses a new buffer. -/
theorem sole_of_new {b : Value} {g : ArrayInfo} (hv : NewObject h h' v t n) (hs : h.Sound)
    (hb : h'.IsArray b g) : g.buffer ≠ v := by
  rintro rfl
  exact hv.fresh (live_of_typeOf (hs.arrays (hv.arrays hb)).body.buffer)

/-! ## New arrays -/

/-- A new array of zeros, in a buffer that is new too. -/
structure NewArray (h h' : Heap) (a : Value) (elem : TypeRef) (dims : List Nat) (f : ArrayInfo) : Prop where
  fresh : ¬h.Live a
  array : h'.IsArray a f
  freshBuffer : ¬h.Live f.buffer
  elem : f.elem = elem
  ndims : f.flags.ndims = dims.length
  unshared : f.flags.isShared = false
  length : f.length = dims.prod
  zero : ∀ j, j < h'.word f.buffer 0 → h'.byte f.buffer (refSize + j) = 0

/-- The words of an array are written when the array and its buffer are new objects. -/
theorem runOn_build {h₁ h₂ : Heap} {size : Nat} (hr : Ready S h)
    (hstored : h.registry.Stored f.elem f.flags.storage f.flags.slotSize) (hndims : f.flags.ndims = dims.length)
    (hunshared : f.flags.isShared = false) (hcapacity : f.capacity = f.length) (hcount : elementCount dims = some f.length)
    (hlt : f.length < 0x10000000000000000) (hdims : ∀ d ∈ dims, d < 0x10000000000000000)
    (hsize : bufferSize f.flags.storage f.flags.slotSize f.capacity = some size)
    (ht : h.types.Stands Builtin.arrayFamily [.type f.elem, .int (Int64.ofNat dims.length)] t)
    (hp₁ : Path S h h₁) (hbuffer : NewObject h h₁ f.buffer Builtin.buffer size)
    (hp₂ : Path S h₁ h₂) (ha : NewObject h₁ h₂ a t dims.length) :
    (writeAll a f dims f.buffer).runOn h₂ = (.ok ⟨⟩, h₂.putArray a f dims) ∧ Step S h₂ (h₂.putArray a f dims) ∧
      NewArray h (h₂.putArray a f dims) a f.elem dims f := by
  have hr₁ := hr.along hp₁
  have hs₂ := (hr₁.along hp₂).sound
  have he₁ := (hp₁.keeps hr.sound).registry
  have htype : h₂.ArrayType a f.elem dims.length :=
    arrayType_of_new ha ((ht.extends he₁.types).extends ha.kept.registry.types)
  have hbody₁ : h₁.BodySound f :=
    bodySound_of_new hbuffer hr₁.sound (hstored.extends he₁) (Nat.le_of_eq hcapacity.symm) hsize
  have hbody : h₂.BodySound f := hbody₁.congr ha.kept.toExtends fun j hj =>
    ha.kept.bytes (hr₁.sound.size_buffer hbuffer.type) hj id
  have hfresh : ¬h.Live a := fun hlive => ha.fresh ((hp₁.keeps hr.sound).live hlive)
  have hend := hs₂.end_le_top (hs₂.size_array htype)
  have hsize₁ := hr₁.sound.size_buffer hbuffer.type
  have hsize₂ := ha.kept.size? hsize₁
  have hword₂ : h₂.word f.buffer 0 = h₁.word f.buffer 0 :=
    ha.kept.word_eq hsize₁ (Nat.le_add_right _ _) fun _ _ _ => id
  have hzero (j : Nat) (hj : j < h₂.word f.buffer 0) : h₂.byte f.buffer (refSize + j) = 0 := by
    rw [ha.kept.bytes hsize₁ (by omega) id]
    exact hbuffer.zero hr₁.sound.descriptor_buffer fun _ => Nat.le_add_right _ _
  have step : Step S h₂ (h₂.putArray a f dims) :=
    .arrayBuilt htype hbody hndims hunshared hcount (by rw [hcapacity]; exact hlt) hdims
      (fun hb => sole_of_new hbuffer hr.sound (ha.arrays hb)) ha.young
      ((hp₂.ages hr₁.sound).young _ hbuffer.young) hzero (hr.fresh hfresh)
  have harray := (arraySound_putArray hs₂ htype hbody hndims hcount (by rw [hcapacity]; exact hlt) hdims).1
  refine ⟨runOn_writeAll hend, step, hfresh, harray, hbuffer.fresh, rfl, hndims, hunshared, (elementCount_eq_some hcount).1, ?_⟩
  -- The words of the array lie outside its buffer.
  intro j hj
  have hkeeps : Keeps (fun w _ => w = a) h₂ (h₂.putArray a f dims) :=
    (putArray_writes hs₂ htype fun _ => rfl).keeps
  have hne : f.buffer ≠ a := (hs₂.ne_buffer htype hbody.buffer).symm
  have hword : (h₂.putArray a f dims).word f.buffer 0 = h₂.word f.buffer 0 :=
    hkeeps.word_eq hsize₂ (Nat.le_add_right _ _) fun _ _ _ => hne
  rw [hword] at hj
  rw [hkeeps.bytes hsize₂ (by omega) hne, hzero j hj]

theorem new_meets (hr : Ready S h) (elem : TypeRef) (hdims : ∀ d ∈ dims, d < 0x10000000000000000) :
    Meets (Path S) (new elem dims) h fun a h' => ∃ f, NewArray h h' a elem dims f := by
  unfold new
  cases hcount : elementCount dims with
  | none => exact Meets.throw _
  | some n =>
    have hn : n < 0x10000000000000000 := Nat.lt_of_le_of_lt (elementCount_eq_some hcount).2 (by decide)
    have hfamily := onTypes_meets (h := h) (arrayType_meets hr.sound.registry.types elem dims.length)
    refine learns_bind hfamily fun t h₁ hl₁ ht => ?_
    refine learns_bind (elementStorage_meets elem) fun p h₂ hl₂ hstored => ?_
    obtain ⟨storage, slotSize⟩ := p
    have hl := hl₁.trans hl₂
    have hr₂ := hr.learns hl
    have ht := ht.stands.extends hl₂.extends.registry.types
    dsimp only
    cases hsize : bufferSize storage slotSize n with
    | none => exact Meets.throw _
    | some size =>
      refine Meets.bind (Buffer.new_meets hr₂ size) fun buffer h₃ hp₃ hbuffer => ?_
      refine Meets.bind (allocate_meets (hr₂.along hp₃) t dims.length) fun a h₄ hp₄ ha => ?_
      let f : ArrayInfo :=
        { elem, flags := { ndims := dims.length, storage, isShared := false, slotSize }
          length := n, capacity := n, buffer }
      obtain ⟨hrun, step, hnew⟩ :=
        runOn_build (f := f) hr₂ hstored rfl rfl rfl hcount hn hdims hsize ht hp₃ hbuffer hp₄ ha
      have hwrite : Meets (Path S) (writeAll a f dims buffer) h₄ fun _ h' => NewArray h h' a elem dims f :=
        .of_runOn hrun (.step step) fun _ _ =>
          { hnew with
            fresh := fun hlive => hnew.fresh (hl.extends.live hlive)
            freshBuffer := fun hlive => hnew.freshBuffer (hl.extends.live hlive) }
      exact Meets.bind hwrite fun _ h₅ _ hf => Meets.pure ⟨f, hf⟩

/-- A vector that is too long for its length to fit in a word is not made. -/
theorem newVector_meets (hr : Ready S h) (elem : TypeRef) (n : Nat) :
    Meets (Path S) (newVector elem n) h fun a h' => ∃ f, NewArray h h' a elem [n] f := by
  by_cases hn : n < 0x10000000000000000
  · exact new_meets hr elem fun d hd => by
      rw [List.mem_singleton.1 hd]
      exact hn
  · unfold newVector new
    rw [elementCount_singleton hn]
    exact Meets.throw _

end TypedHeap.ArrayObject
