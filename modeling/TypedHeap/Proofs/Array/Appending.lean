import TypedHeap.Proofs.Array.Acceptance
import TypedHeap.Proofs.Array.Vector
import TypedHeap.Proofs.Array.Views

/-!
# Values that cannot be appended

A slot is made for a value before it is known whether the value fits in it. If it does not, the slot is given back,
and an array that had room for it is what it was. An array that was full has moved for the slot, and does not move
back.

* `ArrayObject.lengthening_unharmed`: a slot that is made and given back leaves no trace.
* `ArrayObject.Relocated`: an array that moved, and is the same otherwise.
* `ArrayObject.Refused`: what is left of a value that could not be appended.

Main result: `push_refuses`.
-/

namespace TypedHeap

open TypedHeap.Action (Ends)
open Heap ArrayObject

variable {h h' : Heap} {a v x buffer : Value} {f g : ArrayInfo} {e : Error} {k n : Nat} {xs : List (Option Datum)}

/-! ## Slots that are made and given back -/

namespace Heap

/-- The dimension of an array of one dimension is its length. -/
theorem Sound.word_dim (hs : h.Sound) (ha : h.IsArray a f) (hndims : f.flags.ndims = 1) :
    h.word a (dimWord 0) = f.length := by
  have hcount := (hs.arrays ha).count
  rw [hndims] at hcount
  exact List.prod_singleton.symm.trans (elementCount_eq_some hcount).1.symm

theorem Sound.dims_vector (hs : h.Sound) (ha : h.IsArray a f) (hndims : f.flags.ndims = 1) :
    dims h a = .ok [f.length] := by
  rw [hs.dims_eq ha, hndims, ← hs.word_dim ha hndims]
  rfl

/-- A slot is made in front of the capacity, or given back, no matter in which order. -/
theorem lengthening_swap (f : ArrayInfo) (n : Nat) :
    Lengthening a { f with length := n } f.length = Lengthening a f n := by
  funext w k
  show (_ ∨ Cells f (min n f.length) (max n f.length) w k) = _
  rw [Nat.min_comm, Nat.max_comm]
  rfl

/-- The bytes of slots behind the length are zero, and the words that say how long an array is follow from its
description. So whoever has changed no more, and has the description restored, has changed nothing. -/
theorem Quiet.lengthening_unharmed (hq : Quiet (Lengthening a f n) h h') (hs : h.Sound) (hs' : h'.Sound)
    (ha : h.IsArray a f) (ha' : h'.IsArray a f) (hndims : f.flags.ndims = 1) (hlo : f.length ≤ n)
    (hhi : n ≤ f.capacity) : Unharmed h h' := by
  refine (hq.restored fun v m k _ _ hin => ?_).unharmed hs hs' fun _ _ _ => id
  rcases hin with ⟨rfl, ⟨h1, h2⟩ | ⟨h1, h2⟩⟩ | ⟨rfl, j, rfl, hj⟩
  · exact byte_eq_of_word_eq (ha'.length.trans ha.length.symm) h1 h2
  · exact byte_eq_of_word_eq ((hs'.word_dim ha' hndims).trans (hs.word_dim ha hndims).symm) h1 h2
  · have hvacant : f.Vacant j := hj.mono (by omega) (by omega)
    rw [(hs.arrays ha).body.vacant j hvacant, (hs'.arrays ha').body.vacant j hvacant]

end Heap

namespace ArrayObject

/-! ## What is left -/

/-- An array has moved to a new buffer with more room, which is its owner now. It has the length, the dimensions and
the elements that it had. Other objects are what they were. -/
structure Relocated (h : Heap) (a : Value) (f : ArrayInfo) (buffer : Value) (h' : Heap) : Prop where
  fresh : ¬h.Live buffer
  before : info h a = .ok f
  after : info h' a = .ok { f with buffer, capacity := grownCapacity f.capacity (f.length + 1) }
  owner : owner h' a = .ok buffer
  dims : dims h' a = dims h a
  elements : ∀ xs, Lists h a xs → Lists h' a xs
  /-- No place in the buffer that the array had is one of its elements any more. -/
  stale : ∀ p, isCurrent h a p = .ok true → isCurrent h' a p = .ok false
  type : h'.typeOf a = h.typeOf a
  others : ∀ v, h.Live v → v ≠ a → Intact h h' v

/-- What is left of a value that could not be appended: nothing at all, unless the array had moved to make room. It
has if it was full and the value was at fault. -/
inductive Refused (h : Heap) (a x : Value) (h' : Heap) : Prop
  | unharmed (unharmed : h.Unharmed h')
      (current : ∀ p, isCurrent h a p = .ok true → isCurrent h' a p = .ok true)
      (reason : ∀ f, info h a = .ok f → f.length < f.capacity ∨ f.length = maxWord ∨
        ∃ e, ((resize a (f.length + 1)).runOn h).1 = .error e)
  | moved {f : ArrayInfo} {buffer : Value} (full : f.length = f.capacity)
      (room : ((resize a (f.length + 1)).runOn h).1 = .ok ())
      (unfit : h.isa x f.elem ≠ .ok true) (relocated : Relocated h a f buffer h')

theorem isCurrent_eq (hs : h.Sound) (ha : h.IsArray a f) (p : ElementPointer) :
    isCurrent h a p = .ok (decide (f.buffer = p.buffer)) :=
  bind_eq_ok.2 ⟨f, hs.info_iff.2 ha, rfl⟩

/-- An array that is described as before has the pointers that it had. -/
theorem current_of_isArray (hs : h.Sound) (hs' : h'.Sound) (ha : h.IsArray a f) (ha' : h'.IsArray a f)
    (p : ElementPointer) (hp : isCurrent h a p = .ok true) : isCurrent h' a p = .ok true := by
  rwa [isCurrent_eq hs' ha', ← isCurrent_eq hs ha]

/-- Whoever touches new objects only leaves an array alone. -/
theorem Refused.of_path (hs : h.Sound) (hp : Path (fun w _ => ¬h.Live w) h h')
    (hreason : ∀ f, info h a = .ok f → f.length < f.capacity ∨ f.length = maxWord ∨
      ∃ e, ((resize a (f.length + 1)).runOn h).1 = .error e) : Refused h a x h' := by
  refine .unharmed (hp.unharmed hs) (fun p hcurrent => ?_) hreason
  obtain ⟨f, hf, -⟩ := bind_eq_ok.1 hcurrent
  have ha := isArray_of_info hs.registry hf
  have ha' := hs.isArray_kept ha (hp.keeps hs) fun _ hdead => hdead ha.live
  exact current_of_isArray hs (hp.sound hs) ha ha' p hcurrent

/-- A slot was made in the buffer, and was given back. -/
theorem Refused.inPlace {h₁ : Heap} (hs : h.Sound) (hs' : h'.Sound) (ha : h.IsArray a f) (ha' : h'.IsArray a f)
    (hndims : f.flags.ndims = 1) (hroom : f.length + 1 ≤ f.capacity)
    (hmade : Writes (Lengthening a f (f.length + 1)) h h₁)
    (hback : Writes (Lengthening a { f with length := f.length + 1 } f.length) h₁ h') : Refused h a x h' := by
  rw [lengthening_swap] at hback
  have hquiet := hmade.quiet.trans hback.quiet
  refine .unharmed (hquiet.lengthening_unharmed hs hs' ha ha' hndims (Nat.le_succ _) hroom)
    (current_of_isArray hs hs' ha ha') fun g hg => .inl ?_
  cases ha.unique (isArray_of_info hs.registry hg)
  exact hroom

/-- The array moved for the slot, which was given back in the new buffer. -/
theorem Relocated.of_writes {h₁ : Heap} (hs : h.Sound) (hs' : h'.Sound) (ha : h.IsArray a f)
    (ha' : h'.IsArray a { f with buffer, capacity := grownCapacity f.capacity (f.length + 1) })
    (hndims : f.flags.ndims = 1) (hfresh : ¬h.Live buffer)
    (hmoved : Path (fun w _ => w = a ∨ ¬h.Live w) h h₁)
    (hback : Writes (fun w _ => w = a ∨ ¬h.Live w) h₁ h')
    (helements : ∀ xs, Lists h a xs → Lists h' a xs) : Relocated h a f buffer h' := by
  have hk := hmoved.keeps hs |>.trans hback.toRewrites.keeps
  obtain ⟨t, ht⟩ := hs.exists_typeOf ha.live
  have hbuffer := live_of_typeOf (hs.arrays ha).body.buffer
  refine ⟨hfresh, hs.info_iff.2 ha, hs'.info_iff.2 ha', hs'.owner_eq ha', ?_, helements, fun p hp => ?_, ?_,
    fun v hv hne => ?_⟩
  · rw [hs.dims_vector ha hndims, hs'.dims_vector ha' hndims]
  · rw [isCurrent_eq hs ha] at hp
    have hbefore : f.buffer = p.buffer := of_decide_eq_true (Except.ok.inj hp)
    rw [isCurrent_eq hs' ha']
    refine congrArg Except.ok (decide_eq_false fun heq => hfresh ?_)
    rwa [show buffer = f.buffer from heq.trans hbefore.symm]
  · rw [ht, hk.typeOf ht]
  · have hout (k : Nat) : ¬(v = a ∨ ¬h.Live v) := not_or.2 ⟨hne, not_not_intro hv⟩
    refine hk.intact hs hs' hv hout ?_
    rw [hback.header v ((hmoved.keeps hs).live hv), hmoved.header_eq hs hv fun hall => hout 0 (hall 0)]

/-- Types stay below abstract types as objects come and go. -/
theorem Adjusted.belowAbstract (hadjusted : Adjusted h a f n h' g) (hs : h.Sound) (hbelow : h.types.BelowAbstract) :
    h'.types.BelowAbstract := by
  cases hadjusted with
  | inPlace room writes => rwa [writes.types_eq]
  | moved full fresh path =>
    have hpath : TypeTable.Path h.types h'.types := (Trail.grows path.trail hs).types
    intro name f sup
    exact TypeTable.Path.belowAbstract hpath hbelow

/-- If the slot was made, the value is at fault, and the slot is given back. -/
theorem push_moves (hs : h.Sound) (hbelow : h.types.BelowAbstract) (ha : h.IsArray a f) (x : Value) :
    Ends (push a x) h (fun _ _ => True) fun h' => Refused h a x h' ∨
      f.flags.ndims = 1 ∧ f.flags.isShared = false ∧ f.length = f.capacity ∧
      ((resize a (f.length + 1)).runOn h).1 = .ok () ∧ h.isa x f.elem ≠ .ok true ∧
        ∃ buffer, (∀ xs, Lists h a xs → Lists h' a xs) → Relocated h a f buffer h' := by
  have hinfo := hs.info_iff.2 ha
  have hreason {P : ArrayInfo → Prop} (hP : P f) (g : ArrayInfo) (hg : info h a = .ok g) : P g := by
    cases hinfo.symm.trans hg
    exact hP
  have hlength : (Action.look (length · a)).runOn h = (.ok f.length, h) := by
    rw [Action.runOn_look, length, hinfo]
    rfl
  have hlt := h.word_lt a lengthWord
  rw [ha.length] at hlt
  have hmaxWord : Heap.maxWord = 0x10000000000000000 - 1 := rfl
  unfold push
  refine Ends.bind_ok hlength (Ends.guard (fun hmax => .inl ?_) fun hmax => ?_)
  · exact .of_path hs .refl (hreason (.inr (.inl hmax)))
  have hmake := resize_ends (n := f.length + 1) hs ha (by omega)
  rcases hmade : (resize a (f.length + 1)).runOn h with ⟨r | ⟨⟨⟩⟩, h₁⟩
  · refine .of_error (Action.runOn_bind_error hmade) (.inl (.of_path hs (hmake.failure _ _ hmade).1 (hreason ?_)))
    exact .inr (.inr ⟨r, by rw [hmade]⟩)
  obtain ⟨hndims, hsole, hs₁, g, hg, hadjusted⟩ := hmake.answer _ _ hmade
  have hbelow₁ : h₁.types.BelowAbstract := hadjusted.belowAbstract hs hbelow
  have hslot : f.length < g.length ∧ g.elem = f.elem ∧ h.Extends h₁ := by
    cases hadjusted with
    | inPlace room writes => exact ⟨Nat.lt_succ_self _, rfl, writes.extends⟩
    | moved full fresh path => exact ⟨Nat.lt_succ_self _, rfl, (path.keeps hs).toExtends⟩
  obtain ⟨hi, helem, hextends⟩ := hslot
  refine Ends.bind_ok hmade (Ends.recover ((set_refuses hs₁ hbelow₁ hg hi x).mono (fun _ _ _ => trivial) fun _ => id)
    (set_ne_overflow hs₁ a f.length x) fun e h₂ hrefused => ?_)
  obtain ⟨rfl, hother⟩ := hrefused
  have hunfit : h.isa x f.elem ≠ .ok true := fun hfits => hother (by rw [helem]; exact hextends.isa hfits)
  have hle := (hs.arrays ha).body.length_le
  cases hadjusted with
  | inPlace room writes =>
    obtain ⟨h₃, hback, hs₃, ha₃, writes'⟩ := runOn_resize hs₁ hg hndims hsole hle
    exact Ends.bind_ok hback (Ends.throw e (.inl (.inPlace hs hs₃ ha ha₃ hndims room writes writes')))
  | @moved buffer full fresh path =>
    have hfull : f.length = f.capacity := by omega
    have hroom := (grownCapacity_bounds full (by omega)).2.1
    obtain ⟨h₃, hback, hs₃, ha₃, writes'⟩ := runOn_resize hs₁ hg hndims hsole (Nat.le_trans hle hroom)
    have hwrites : Writes (fun w _ => w = a ∨ ¬h.Live w) h₂ h₃ := writes'.mono fun w k hin => by
      rcases hin with ⟨rfl, -⟩ | ⟨rfl, -⟩
      · exact .inl rfl
      · exact .inr fresh
    refine Ends.bind_ok hback (Ends.throw e (.inr ⟨hndims, hsole, hfull, rfl, hunfit, buffer, fun helements => ?_⟩))
    exact .of_writes hs hs₃ ha ha₃ hndims fresh path hwrites helements

/-- A value that fails to be appended leaves nothing behind, or an array that moved. -/
theorem push_refuses (hs : h.Sound) (hbelow : h.types.BelowAbstract)
    (hrun : (push a x).runOn h = (.error e, h')) : Refused h a x h' := by
  rcases hinfo : info h a with r | f
  · have hlength : (Action.look (length · a)).runOn h = (.error r, h) := by
      rw [Action.runOn_look, length, hinfo]
      rfl
    have hfail : (push a x).runOn h = (.error r, h) := Action.runOn_bind_error hlength
    cases hfail.symm.trans hrun
    exact .of_path hs .refl fun f hf => by rw [hinfo] at hf; cases hf
  have ha := isArray_of_info hs.registry hinfo
  have hfail := (push_moves hs hbelow ha x).failure e h' hrun
  rcases hfail with hdone | ⟨hndims, hsole, hfull, hroom, hunfit, buffer, hmoved⟩
  · exact hdone
  · refine .moved hfull hroom hunfit (hmoved fun xs hx => ?_)
    have hv : h.VectorOf a f xs := ⟨hs, ha, hndims, hsole, holds_of_lists hs ha hx⟩
    obtain ⟨g, -, hv'⟩ := (push_vector hv x).failure e h' hrun
    exact hv'.lists

end ArrayObject

end TypedHeap
