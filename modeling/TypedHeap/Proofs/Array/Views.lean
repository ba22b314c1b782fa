import TypedHeap.Array.Shape
import TypedHeap.Proofs.Array.Stores

/-!
# Views

Arrays that share a buffer know it, and describe the buffer alike. An array that knows that it shares its buffer
keeps the buffer, its length and its room for good, and refuses to be resized. So the arrays over one buffer are
one and the same list, whatever their dimensions are.

* `Heap.Sound.owner_eq`: the owner is the buffer.
* `ArrayObject.runOn_resize_shared`, `runOn_push_shared`: other lengths are refused.

Main results: `Trail.isArray_shared`, `lists_of_sameBody`.
-/

namespace TypedHeap

open Heap ArrayObject

variable {h h' : Heap} {a b x : Value} {f g : ArrayInfo} {i n : Nat} {xs : List (Option Datum)}
  {S : Value → Nat → Prop}

theorem ArrayInfo.Shares.trans {e : ArrayInfo} (hfg : f.Shares g) (hge : g.Shares e) : f.Shares e :=
  ⟨hfg.left, hge.right, hfg.body.trans hge.body⟩

namespace Heap

/-- Every array names its buffer as the owner. -/
theorem Sound.owner_eq (hs : h.Sound) (ha : h.IsArray a f) : owner h a = .ok f.buffer := by
  have hsound := hs.arrays ha
  have hend := hs.end_le_top (hs.size_array hsound.type)
  have hread : h.readRef (a.offset + ownerOffset f.flags.ndims) = .ok (some f.buffer) := by
    rw [readRef_eq (by rw [refSize] at hend; omega), hsound.owner]
  exact bind_eq_ok.2 ⟨f, hs.info_iff.2 ha, bind_eq_ok.2 ⟨_, hread, rfl⟩⟩

/-! ## The words of an array that shares its buffer -/

/-- Marking as shared what is marked already is no change. -/
theorem shared_eq_self (hshared : f.flags.isShared = true) : shared f = f := by
  obtain ⟨elem, ⟨ndims, storage, isShared, slotSize⟩, length, capacity, buffer⟩ := f
  cases hshared
  rfl

theorem Step.isArray_shared (step : Step S h h') (hs : h.Sound) (ha : h.IsArray a f)
    (hshared : f.flags.isShared = true) (hS : ∃ j, ¬S a j) : h'.IsArray a f := by
  cases step.arrayType hs (hs.arrays ha).type with
  | kept keeps => exact hs.isArray_kept ha keeps fun _ hne => hne rfl
  | marked before after =>
    rwa [ha.unique before, shared_eq_self hshared] at after
  | written allowed =>
    obtain ⟨j, hj⟩ := hS
    exact absurd (allowed j) hj

/-- As long as not all of it is open to change, an array that shares its buffer keeps its words. -/
theorem Trail.isArray_shared (trail : Trail S h h') (hs : h.Sound) (ha : h.IsArray a f)
    (hshared : f.flags.isShared = true) (hS : ∃ j, ¬S a j) : h'.IsArray a f := by
  refine trail.preserves (P := fun h' => h'.IsArray a f) hs (fun move hs ha => ?_) ha
  cases move with
  | step step => exact step.isArray_shared hs ha hshared hS
  | flags rewrites => exact hs.isArray_kept ha rewrites.keeps fun _ => id

end Heap

namespace ArrayObject

/-! ## One buffer, one list -/

/-- Slots that are described alike are the same. -/
theorem sameSlot_of_sameBody (hbody : f.SameBody g) : SameSlot h f h g i where
  registry := .refl _
  elem := hbody.elem
  storage := hbody.storage
  slotSize := hbody.slotSize
  bytes j _ := by rw [hbody.buffer, hbody.slotOffset]
  selector _ := by rw [hbody.buffer, hbody.selectorOffset]

/-- Arrays over one buffer are the same list. -/
theorem lists_of_sameBody (hs : h.Sound) (ha : h.IsArray a f) (hb : h.IsArray b g) (hbody : f.SameBody g)
    (hl : Lists h a xs) : Lists h b xs :=
  lists_of_holds hs hb
    ((holds_of_lists hs ha hl).of_same (hs.arrays ha).body hbody.length fun _ _ => sameSlot_of_sameBody hbody)

/-! ## Lengths -/

/-- An array that shares its buffer refuses any other length, and even its own. -/
theorem runOn_resize_shared (hs : h.Sound) (ha : h.IsArray a f) (hshared : f.flags.isShared = true) (n : Nat) :
    ∃ e, (resize a n).runOn h = (.error e, h) := by
  by_cases hndims : f.flags.ndims = 1
  · refine ⟨.invalidArgument "cannot resize an array whose buffer is shared", ?_⟩
    rw [resize, Action.runOn_bind_ok (hs.runOn_info ha), if_neg (not_not.2 hndims), if_pos hshared]
    rfl
  · refine ⟨.invalidArgument ("cannot resize a " ++ toString f.flags.ndims ++ "-dimensional array"), ?_⟩
    rw [resize, Action.runOn_bind_ok (hs.runOn_info ha), if_pos hndims]
    rfl

theorem runOn_push_shared (hs : h.Sound) (ha : h.IsArray a f) (hshared : f.flags.isShared = true) (x : Value) :
    ∃ e, (push a x).runOn h = (.error e, h) := by
  have hlength : (Action.look (length · a)).runOn h = (.ok f.length, h) := by
    rw [Action.runOn_look, length, hs.info_iff.2 ha]
    rfl
  by_cases hmax : f.length = Heap.maxWord
  · refine ⟨.invalidArgument "array length overflow", ?_⟩
    rw [push, Action.runOn_bind_ok hlength, if_pos hmax]
    rfl
  · obtain ⟨e, hresize⟩ := runOn_resize_shared hs ha hshared (f.length + 1)
    refine ⟨e, ?_⟩
    rw [push, Action.runOn_bind_ok hlength, if_neg hmax]
    exact Action.runOn_bind_error hresize

end ArrayObject

end TypedHeap
