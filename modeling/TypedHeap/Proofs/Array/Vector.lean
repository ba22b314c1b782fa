import TypedHeap.Proofs.Array.Shape
import TypedHeap.Proofs.Array.Stores

/-!
# Vectors

A vector has one dimension and a buffer of its own, so there is nothing but its elements to it. Each way
to change a vector replaces its list by another one, or leaves it alone.

* `ArrayObject.IsVector`: an array that is a vector, by what it answers.
* `Heap.VectorOf`: the same by what stands in its words and in its buffer.
* `Edit`, `Edit.run`: a change of a vector.
* `Edit.Makes`: the list after a change.

Main result: `Edit.ends`.
-/

namespace TypedHeap

open TypedHeap.Action (Ends)
open Heap ArrayObject

variable {h h' : Heap} {a x : Value} {f : ArrayInfo} {elem : TypeRef} {i n : Nat}
  {xs ys : List (Option Datum)}

/-! ## Vectors and their lists -/

/-- An array of one dimension whose buffer is its own. -/
structure ArrayObject.IsVector (h : Heap) (a : Value) (elem : TypeRef) : Prop where
  elementType : ArrayObject.elementType h a = .ok elem
  ndims : ArrayObject.ndims h a = .ok 1
  unshared : ArrayObject.isShared h a = .ok false

namespace Heap

/-- A vector, as its words describe it, and its elements. -/
structure VectorOf (h : Heap) (a : Value) (f : ArrayInfo) (xs : List (Option Datum)) : Prop where
  sound : h.Sound
  array : h.IsArray a f
  ndims : f.flags.ndims = 1
  unshared : f.flags.isShared = false
  holds : h.Holds f xs

theorem VectorOf.isVector (hv : h.VectorOf a f xs) : IsVector h a f.elem where
  elementType := bind_eq_ok.2 ⟨f, hv.sound.info_iff.2 hv.array, rfl⟩
  ndims := bind_eq_ok.2 ⟨f, hv.sound.info_iff.2 hv.array, pure_eq_ok.2 hv.ndims⟩
  unshared := bind_eq_ok.2 ⟨f, hv.sound.info_iff.2 hv.array, pure_eq_ok.2 hv.unshared⟩

theorem VectorOf.lists (hv : h.VectorOf a f xs) : Lists h a xs := lists_of_holds hv.sound hv.array hv.holds

theorem VectorOf.body (hv : h.VectorOf a f xs) : h.BodySound f := (hv.sound.arrays hv.array).body

end Heap

/-- A new vector holds defaults. -/
theorem ArrayObject.NewArray.vectorOf (hnew : NewArray h h' a elem [n] f) (hs : h'.Sound) :
    ∃ d, h'.Default elem d ∧ h'.VectorOf a f (List.replicate n d) := by
  have hb := (hs.arrays hnew.array).body
  have hlength : f.length = n := hnew.length.trans (List.prod_singleton)
  obtain ⟨d, hd, hshows⟩ := exists_default hs.registry hb
  rw [hnew.elem] at hd
  refine ⟨d, hd, hs, hnew.array, hnew.ndims, hnew.unshared, ?_, fun i e he => ?_⟩
  · rw [List.length_replicate, hlength]
  · obtain ⟨hi, rfl⟩ := List.getElem?_eq_some_iff.1 he
    rw [List.length_replicate, ← hlength] at hi
    rw [List.getElem_replicate]
    exact hshows i fun j hj => hnew.zero j (hb.between_lt (Nat.lt_of_lt_of_le hi hb.length_le) hj)

/-- A vector keeps its elements while nobody writes to it or to its buffer. -/
theorem Heap.VectorOf.keeps {S : Value → Nat → Prop} (hv : h.VectorOf a f xs) (hs' : h'.Sound) (hk : Keeps S h h')
    (hS : ∀ k, ¬S a k) (hSb : ∀ k, ¬S f.buffer k) : h'.VectorOf a f xs where
  sound := hs'
  array := hv.sound.isArray_kept hv.array hk hS
  ndims := hv.ndims
  unshared := hv.unshared
  holds := hv.holds.keeps hv.sound hv.body hk hSb

/-- It keeps them while only new objects are written to. -/
theorem Heap.VectorOf.stays (hv : h.VectorOf a f xs) (hs' : h'.Sound) (hk : Keeps (fun w _ => ¬h.Live w) h h') :
    h'.VectorOf a f xs :=
  hv.keeps hs' hk (fun _ hdead => hdead hv.array.live) fun _ hdead => hdead (live_of_typeOf hv.body.buffer)

theorem Heap.VectorOf.learns (hv : h.VectorOf a f xs) (hl : h.Learns h') : h'.VectorOf a f xs :=
  hv.keeps (hv.sound.learns hl) (hl.keeps fun _ _ => False) (fun _ => id) fun _ => id

/-- The flags of an array have no part in what it holds. -/
theorem Heap.Holds.reflagged {g : ArrayInfo} {S : Value → Nat → Prop} (hx : h.Holds f xs) (hs : h.Sound)
    (hs' : h'.Sound) (ha : h.IsArray a f) (ha' : h'.IsArray a g) (hk : Keeps S h h')
    (hS : ∀ k, S a k → flagsWord ≤ k ∧ k < flagsWord + refSize) (hSb : ∀ k, ¬S f.buffer k) :
    h'.Holds g xs := by
  have hb := (hs.arrays ha).body
  obtain ⟨rank, ht⟩ := ha.type
  obtain ⟨rank', ht'⟩ := ha'.type
  have hword (k : Nat) (hle : k ≤ capacityWord) (hout : k + 8 ≤ flagsWord ∨ flagsWord + refSize ≤ k) :
      h'.word a k = h.word a k := by
    refine hk.word_eq (hs.size_array ht) ?_ fun j hj hj' hin => ?_
    · simp only [capacityWord, ownerOffset, refSize] at hle ⊢
      omega
    · have hbounds := hS j hin
      omega
  have hbuffer := ha'.buffer
  rw [slot, hword _ (by decide) (by decide)] at hbuffer
  have hstorage := hb.runOn_storage hs'.registry hk.toExtends
  have hstorage' := runOn_elementStorage hs'.registry (hs'.arrays ha').body.stored
  have helem := ((ht.extends hk.toExtends).unique ht').1
  rw [helem, hstorage] at hstorage'
  simp only [Prod.mk.injEq, Except.ok.injEq, and_true] at hstorage'
  have hbody : f.SameBody g :=
    { elem := helem
      storage := hstorage'.1.symm
      slotSize := hstorage'.2.symm
      length := by rw [← ha'.length, hword _ (by decide) (by decide), ha.length]
      capacity := by rw [← ha'.capacity, hword _ (by decide) (by decide), ha.capacity]
      buffer := Option.some.inj (hbuffer.symm.trans ha.buffer) }
  refine hx.of_same hb hbody.length fun i hi => ?_
  have hsame := hk.sameSlot hs hb (Nat.lt_of_lt_of_le hi hb.length_le) fun _ _ => hSb _
  exact hsame.trans ⟨.refl _, hbody.elem, hbody.storage, hbody.slotSize,
    fun _ _ => by rw [hbody.buffer, hbody.slotOffset], fun _ => by rw [hbody.buffer, hbody.selectorOffset]⟩

namespace ArrayObject

theorem IsVector.exists_info (hs : h.Sound) (hv : IsVector h a elem) :
    ∃ f, h.IsArray a f ∧ f.elem = elem ∧ f.flags.ndims = 1 ∧ f.flags.isShared = false := by
  obtain ⟨f, hf, helem⟩ := bind_eq_ok.1 hv.elementType
  obtain ⟨g, hg, hndims⟩ := bind_eq_ok.1 hv.ndims
  obtain ⟨k, hk, hsole⟩ := bind_eq_ok.1 hv.unshared
  rw [hf] at hg hk
  cases hg
  cases hk
  exact ⟨f, hs.info_iff.1 hf, pure_eq_ok.1 helem, pure_eq_ok.1 hndims, pure_eq_ok.1 hsole⟩

theorem IsVector.vectorOf (hs : h.Sound) (hv : IsVector h a elem) (hl : Lists h a xs) :
    ∃ f, f.elem = elem ∧ h.VectorOf a f xs := by
  obtain ⟨f, ha, helem, hndims, hsole⟩ := hv.exists_info hs
  exact ⟨f, helem, hs, ha, hndims, hsole, holds_of_lists hs ha hl⟩

/-! ## Changing a vector -/

/-- A store leaves the words of an array alone, so the array stays a vector. -/
theorem store_vector (hv : h.VectorOf a f xs) {y : HeapM Unit} {Q : Heap → Datum → Prop}
    (hpath : Path (fun _ _ => True) h (y.runOn h).2) (harray : (y.runOn h).2.IsArray a f)
    (hstore : Ends y h (fun _ h' => i < f.length ∧ ∃ d, Q h' d ∧ h'.Holds f (xs.set i (some d)))
      fun h' => h'.Holds f xs) :
    Ends y h (fun _ h' => i < xs.length ∧ ∃ d, Q h' d ∧ h'.VectorOf a f (xs.set i (some d)))
      fun h' => h'.VectorOf a f xs := by
  have hstate : Ends y h (fun _ h' => h'.Sound ∧ h'.IsArray a f) fun h' => h'.Sound ∧ h'.IsArray a f :=
    .of_state (I := fun h' : Heap => h'.Sound ∧ h'.IsArray a f) ⟨hpath.sound hv.sound, harray⟩
  refine (hstate.and hstore).mono (fun _ h' hdone => ?_) fun h' hfail => ?_
  · obtain ⟨⟨hs', ha'⟩, hi, d, hd, hx⟩ := hdone
    exact ⟨by rw [hv.holds.length]; exact hi, d, hd, hs', ha', hv.ndims, hv.unshared, hx⟩
  · exact ⟨hfail.1.1, hfail.1.2, hv.ndims, hv.unshared, hfail.2⟩

theorem set_vector (hv : h.VectorOf a f xs) (i : Nat) (x : Value) :
    Ends (set a i x) h (fun _ h' => i < xs.length ∧ ∃ d, h'.Stores f.elem x d ∧
      h'.VectorOf a f (xs.set i (some d))) fun h' => h'.VectorOf a f xs := by
  have hset := set_ends hv.sound hv.array hv.holds i x
  exact store_vector hv (set_meets hv.sound (fun _ _ => trivial) i x).kept
    (set_isArray hv.sound hv.array i x) (hset.mono (fun _ _ hdone => ⟨hdone.1, hdone.2.2⟩) fun _ => id)

theorem setScalar_vector (hv : h.VectorOf a f xs) (i : Nat) (s : ScalarKind) (c : s.Carrier) :
    Ends (setScalar a i s c) h
      (fun _ h' => i < xs.length ∧ ∃ d, Datum.Encodes h' s c d ∧ h'.VectorOf a f (xs.set i (some d)))
      fun h' => h'.VectorOf a f xs :=
  store_vector hv (setScalar_meets ⟨hv.sound, fun _ _ => trivial⟩ (fun _ _ => trivial) i s c).kept
    (setScalar_isArray hv.sound hv.array i s c) (setScalar_ends hv.sound hv.array hv.holds i s c)

/-- A vector has a description of its own for each length, which goes on to be of the same elements. -/
theorem resize_vector (hv : h.VectorOf a f xs) (hn : n < 0x10000000000000000) :
    Ends (resize a n) h (fun _ h' => ∃ g d, g.elem = f.elem ∧ n ≤ g.capacity ∧ h'.Default f.elem d ∧
      h'.VectorOf a g (resized d n xs)) fun h' => h'.VectorOf a f xs ∧ ¬n ≤ f.capacity := by
  have hs := hv.sound
  have hready : Ready (fun _ _ => True) h := ⟨hs, fun _ _ => trivial⟩
  have hmeets := resize_meets (a := a) hready (fun _ _ => trivial) (fun _ _ => trivial) hn
  have hends := (Ends.of_meets hmeets).and (resize_ends hs hv.array hn)
  refine hends.mono (fun _ h' hdone => ?_) fun h' hfail => ?_
  · obtain ⟨⟨hp, f', g, ha, hg, -, rfl, hresized⟩, -⟩ := hdone
    cases hv.array.unique ha
    have hs' := hp.sound hs
    have hb := (hs'.arrays hg).body
    obtain ⟨d, hd, hx⟩ := hresized.holds hv.body hv.holds hs'.registry hb
    exact ⟨g, d, hresized.elem, hb.length_le, hd, hs', hg, by rw [hresized.flags]; exact hv.ndims,
      by rw [hresized.flags]; exact hv.unshared, hx⟩
  · obtain ⟨-, hp, hroom⟩ := hfail
    have hk := hp.keeps hs
    have ha := hs.isArray_kept hv.array hk fun _ hdead => hdead hv.array.live
    have hx := hv.holds.keeps hs hv.body hk fun _ hdead => hdead (live_of_typeOf hv.body.buffer)
    exact ⟨⟨hp.sound hs, ha, hv.ndims, hv.unshared, hx⟩, fun hle => hroom ⟨hv.ndims, hv.unshared, hle⟩⟩

/-- If the value cannot be stored, the slot that was made for it is given back. -/
theorem push_vector (hv : h.VectorOf a f xs) (x : Value) :
    Ends (push a x) h (fun _ h' => ∃ g d, g.elem = f.elem ∧ h'.Stores f.elem x d ∧
      h'.VectorOf a g (xs ++ [some d])) fun h' => ∃ g, g.elem = f.elem ∧ h'.VectorOf a g xs := by
  have hlength : (Action.look (length · a)).runOn h = (.ok xs.length, h) := by
    rw [Action.runOn_look, hv.lists.length]
  have hlt := h.word_lt a lengthWord
  rw [hv.array.length, ← hv.holds.length] at hlt
  have hmaxWord : Heap.maxWord = 0x10000000000000000 - 1 := rfl
  unfold push
  refine Ends.bind_ok hlength (Ends.guard (fun _ => ⟨f, rfl, hv⟩) fun hmax => ?_)
  have hgrow := resize_vector (n := xs.length + 1) hv (by omega)
  refine Ends.bind (hgrow.mono (fun _ _ => id) fun _ hfail => ⟨f, rfl, hfail.1⟩) fun _ h₁ hgrown => ?_
  obtain ⟨g, d, helem, hroom, -, hv₁⟩ := hgrown
  rw [resized_succ] at hv₁
  have hset := set_vector hv₁ xs.length x
  refine Ends.recover (hset.mono (fun _ h' hdone => ?_) fun _ => id) (set_ne_overflow hv₁.sound a xs.length x)
    fun e h₂ hv₂ => ?_
  · obtain ⟨-, y, hy, hv'⟩ := hdone
    rw [List.set_append_right _ _ (Nat.le_refl _), Nat.sub_self] at hv'
    rw [helem] at hy
    exact ⟨g, y, helem, hy, hv'⟩
  · have hback := resize_vector hv₂ hlt
    refine Ends.bind (hback.mono (fun _ _ => id) fun _ hfail => ?_) fun _ h₃ hshrunk => Ends.throw e ?_
    · exact absurd (Nat.le_of_succ_le hroom) hfail.2
    · obtain ⟨k, d', helem', -, -, hv₃⟩ := hshrunk
      rw [resized_append] at hv₃
      exact ⟨k, helem'.trans helem, hv₃⟩

end ArrayObject

/-! ## Edits -/

/-- A change of a vector. -/
inductive Edit
  | set (i : Nat) (x : Value)
  | setScalar (i : Nat) (s : ScalarKind) (c : s.Carrier)
  | resize (n : UInt64)
  | push (x : Value)

namespace Edit

def run (a : Value) : Edit → HeapM Unit
  | set i x => ArrayObject.set a i x
  | setScalar i s c => ArrayObject.setScalar a i s c
  | resize n => ArrayObject.resize a n.toNat
  | push x => ArrayObject.push a x

/-- The list after a change. -/
inductive Makes (h' : Heap) (elem : TypeRef) (xs : List (Option Datum)) :
    Edit → List (Option Datum) → Prop
  | set {i : Nat} {x : Value} {d : Datum} (lt : i < xs.length) (stores : h'.Stores elem x d) :
      Makes h' elem xs (.set i x) (xs.set i (some d))
  | setScalar {i : Nat} {s : ScalarKind} {c : s.Carrier} {d : Datum} (lt : i < xs.length)
      (encodes : d.Encodes h' s c) : Makes h' elem xs (.setScalar i s c) (xs.set i (some d))
  | resize {n : UInt64} {d : Option Datum} (default : h'.Default elem d) :
      Makes h' elem xs (.resize n) (resized d n.toNat xs)
  | push {x : Value} {d : Datum} (stores : h'.Stores elem x d) :
      Makes h' elem xs (.push x) (xs ++ [some d])

/-- A vector stays a vector. Its list changes as the edit says, or not at all if the edit fails. -/
theorem ends (hs : h.Sound) (hv : IsVector h a elem) (hl : Lists h a xs) (e : Edit) :
    Ends (e.run a) h (fun _ h' => IsVector h' a elem ∧ ∃ ys, e.Makes h' elem xs ys ∧ Lists h' a ys)
      fun h' => IsVector h' a elem ∧ Lists h' a xs := by
  obtain ⟨f, rfl, hvec⟩ := hv.vectorOf hs hl
  cases e with
  | set i x =>
    refine (set_vector hvec i x).mono (fun _ h' hdone => ?_) fun h' hv' => ⟨hv'.isVector, hv'.lists⟩
    obtain ⟨hi, d, hd, hv'⟩ := hdone
    exact ⟨hv'.isVector, _, .set hi hd, hv'.lists⟩
  | setScalar i s c =>
    refine (setScalar_vector hvec i s c).mono (fun _ h' hdone => ?_) fun h' hv' => ⟨hv'.isVector, hv'.lists⟩
    obtain ⟨hi, d, hd, hv'⟩ := hdone
    exact ⟨hv'.isVector, _, .setScalar hi hd, hv'.lists⟩
  | resize n =>
    refine (resize_vector hvec n.toNat_lt).mono (fun _ h' hdone => ?_)
      fun h' hfail => ⟨hfail.1.isVector, hfail.1.lists⟩
    obtain ⟨g, d, helem, -, hd, hv'⟩ := hdone
    exact ⟨by rw [← helem]; exact hv'.isVector, _, .resize hd, hv'.lists⟩
  | push x =>
    refine (push_vector hvec x).mono (fun _ h' hdone => ?_) fun h' hfail => ?_
    · obtain ⟨g, d, helem, hd, hv'⟩ := hdone
      exact ⟨by rw [← helem]; exact hv'.isVector, _, .push hd, hv'.lists⟩
    · obtain ⟨g, helem, hv'⟩ := hfail
      exact ⟨by rw [← helem]; exact hv'.isVector, hv'.lists⟩

end Edit

end TypedHeap
