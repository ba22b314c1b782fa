import TypedHeap.Proofs.Array.Appending

/-!
# Where the elements of an array lie

An array keeps its buffer until somebody asks for more elements than the buffer has room for. Then its elements move
to a new buffer, which no object was before, so that a place in an old buffer is never one of the array's again.
A pointer says where the first element lies, and the other elements follow it slot by slot.

* `ArrayObject.Outgrows`: the elements of an array move to make room.
* `ArrayObject.Settles`: where the elements are afterwards.
* `ArrayObject.Found`: what an element is, by the bytes at its place.

Main results: `data_of_isArray`, `found_of_shows`, `resize_settles`, `push_settles`.
-/

namespace TypedHeap

open TypedHeap.Action (Ends Meets)
open Heap ArrayObject

variable {h h' h'' : Heap} {a : Value} {f g k : ArrayInfo} {d : Option Datum} {i n : Nat} {moved : Prop}

namespace ArrayObject

/-! ## Places of elements -/

/-- A pointer to the first element names the buffer and the offset behind its length. -/
theorem data_of_isArray (hs : h.Sound) (ha : h.IsArray a f) :
    data h a = .ok ⟨f.buffer, f.buffer.offset + refSize⟩ :=
  bind_eq_ok.2 ⟨f, hs.info_iff.2 ha,
    bind_eq_ok.2 ⟨_, Buffer.start_eq_ok.2 ⟨(hs.arrays ha).body.buffer, rfl⟩, rfl⟩⟩

/-- What an element of an array is that lies at an offset of the arena: the reference that stands there, or the bits
of a type, of which there are as many as the type takes. -/
inductive Found (h : Heap) (a : Value) (off : Nat) : Option Datum → Prop
  | reference {r : Option Value} (pointers : storage h a = .ok .references) (read : h.readRef off = .ok r) :
      Found h a off (r.map .ref)
  | bits {s : ElementStorage} {t : TypeRef} {n : Nat} {bs : List UInt8} (stored : storage h a = .ok s)
      (inPlace : s ≠ .references) (size : (Heap.sizeOf t).runOn h = (.ok n, h)) (read : h.bytes off n = .ok bs) :
      Found h a off (some (.bits t bs))

/-- What a slot stands for is found where the slot is. -/
theorem found_of_shows (hs : h.Sound) (ha : h.IsArray a f) (hi : i < f.length) (hd : h.Shows f i d) :
    Found h a (f.buffer.offset + refSize + i * f.flags.slotSize) d := by
  have hb := (hs.arrays ha).body
  have hend := slot_end_le hs ha hi
  have hstorage : storage h a = .ok f.flags.storage := bind_eq_ok.2 ⟨f, hs.info_iff.2 ha, rfl⟩
  rw [Nat.add_assoc]
  cases hd with
  | reference href =>
    rw [hb.slotSize_references href] at hend
    exact .reference (hstorage.trans (congrArg _ href)) (readRef_eq hend)
  | bits bits =>
    have hle := bits.le hb
    obtain ⟨l, hl, -, hsize, -⟩ := bits.layout hb
    refine .bits hstorage (fun href => ?_) (runOn_sizeOf hs.registry ⟨l, hl, hsize⟩) (bytes_eq ?_)
    · cases bits with
      | flat hflat => cases href.symm.trans hflat
      | member hselected => cases href.symm.trans hselected
    · simp only [ArrayInfo.slotOffset] at hend
      omega

/-! ## Moving -/

/-- There is no room for a number of elements in the buffer of an array, and the array gets a new one. -/
def Outgrows (h : Heap) (a : Value) (n : Nat) : Prop :=
  n ≤ maxWord ∧ ∃ f, info h a = .ok f ∧ f.capacity < n ∧ ((resize a n).runOn h).1 = .ok ()

/-- An array has a buffer that is new if its elements moved, and else the one that it had. -/
structure Settles (moved : Prop) (h : Heap) (a : Value) (f : ArrayInfo) (h' : Heap) (g : ArrayInfo) : Prop where
  array : h'.IsArray a g
  fresh : moved → ¬h.Live g.buffer
  same : ¬moved → g.buffer = f.buffer

/-- Nothing was done that moves elements. -/
theorem Settles.of_buffer (ha : h'.IsArray a g) (hbuffer : g.buffer = f.buffer) (hstay : ¬moved) :
    Settles moved h a f h' g :=
  ⟨ha, fun hmoved => absurd hmoved hstay, fun _ => hbuffer⟩

/-- What comes after the move leaves the elements where they are. -/
theorem Settles.trans (hg : Settles moved h a f h' g) (hk : h''.IsArray a k) (hbuffer : k.buffer = g.buffer) :
    Settles moved h a f h'' k :=
  ⟨hk, by rw [hbuffer]; exact hg.fresh, by rw [hbuffer]; exact hg.same⟩

theorem Adjusted.length_eq (hadjusted : Adjusted h a f n h' g) : g.length = n := by
  cases hadjusted <;> rfl

/-- An array that is resized moves if it outgrows its buffer, and stays otherwise. -/
theorem resize_settles (hs : h.Sound) (ha : h.IsArray a f) (hn : n ≤ maxWord) :
    Ends (resize a n) h (fun _ h' => h'.Sound ∧ f.flags.ndims = 1 ∧ f.flags.isShared = false ∧
        ∃ g, g.flags = f.flags ∧ g.length = n ∧ Settles (Outgrows h a n) h a f h' g)
      fun h' => Settles (Outgrows h a n) h a f h' f := by
  have hmaxWord : maxWord = 0x10000000000000000 - 1 := rfl
  have hinfo := hs.info_iff.2 ha
  have hends := resize_ends (n := n) hs ha (by omega)
  rcases hrun : (resize a n).runOn h with ⟨e | ⟨⟨⟩⟩, h'⟩
  · obtain ⟨hpath, -⟩ := hends.failure _ _ hrun
    have hstay : ¬Outgrows h a n := by
      rintro ⟨-, -, -, -, hok⟩
      rw [hrun] at hok
      cases hok
    have ha' := hs.isArray_kept ha (hpath.keeps hs) fun _ hdead => hdead ha.live
    exact .of_error hrun (.of_buffer ha' rfl hstay)
  · obtain ⟨hndims, hsole, hs', g, hg, hadjusted⟩ := hends.answer _ _ hrun
    have hflags : g.flags = f.flags := by cases hadjusted <;> rfl
    refine .of_ok hrun ⟨hs', hndims, hsole, g, hflags, hadjusted.length_eq, ?_⟩
    cases hadjusted with
    | inPlace room writes =>
      refine .of_buffer hg rfl ?_
      rintro ⟨-, f', hf', hfull, -⟩
      cases hinfo.symm.trans hf'
      exact Nat.not_le.2 hfull room
    | moved full fresh path =>
      exact ⟨hg, fun _ => fresh, fun hstay => absurd ⟨hn, f, hinfo, full, by rw [hrun]⟩ hstay⟩

/-- An array that a value is appended to moves if it is full, even if the value is refused. -/
theorem push_settles (hs : h.Sound) (ha : h.IsArray a f) (x : Value) :
    ∃ g, Settles (Outgrows h a (f.length + 1)) h a f ((push a x).runOn h).2 g := by
  have hlength : (Action.look (length · a)).runOn h = (.ok f.length, h) := by
    rw [Action.runOn_look, length, hs.info_iff.2 ha]
    rfl
  have hlt := h.word_lt a lengthWord
  rw [ha.length] at hlt
  have hmaxWord : maxWord = 0x10000000000000000 - 1 := rfl
  refine Ends.state (I := fun h' => ∃ g, Settles (Outgrows h a (f.length + 1)) h a f h' g) ?_
  unfold push
  refine Ends.bind_ok hlength (Ends.guard (fun hmax => ?_) fun hmax => ?_)
  · exact ⟨f, .of_buffer ha rfl fun hgrows => by have := hgrows.1; omega⟩
  refine Ends.bind ((resize_settles (n := f.length + 1) hs ha (by omega)).mono (fun _ _ => id) fun _ hg => ⟨f, hg⟩)
    fun _ h₁ hmade => ?_
  obtain ⟨hs₁, hndims, hsole, g, hflags, hlength₁, hg⟩ := hmade
  have hpath : Meets (Path fun _ _ => True) (set a f.length x) h₁ fun _ _ => True :=
    set_meets hs₁ (fun _ _ => trivial) f.length x
  have hset : Ends (set a f.length x) h₁ (fun _ h₂ => h₂.Sound ∧ h₂.IsArray a g)
      fun h₂ => h₂.Sound ∧ h₂.IsArray a g := by
    refine Ends.of_state (I := fun h₂ : Heap => h₂.Sound ∧ h₂.IsArray a g) ⟨hpath.kept.sound hs₁, ?_⟩
    exact set_isArray hs₁ hg.array f.length x
  refine Ends.recover (hset.mono (fun _ h₂ hdone => ⟨g, hg.trans hdone.2 rfl⟩) fun _ => id)
    (set_ne_overflow hs₁ a f.length x) fun e h₂ hfail => ?_
  obtain ⟨hs₂, ha₂⟩ := hfail
  -- The slot was there before it was made room for, so it is given back in place.
  have hle : f.length ≤ g.capacity := by
    have := (hs₂.arrays ha₂).body.length_le
    omega
  rw [← hflags] at hndims hsole
  obtain ⟨h₃, hback, -, ha₃, -⟩ := runOn_resize hs₂ ha₂ hndims hsole hle
  exact Ends.bind_ok hback (Ends.throw e ⟨_, hg.trans ha₃ rfl⟩)

end ArrayObject

end TypedHeap
