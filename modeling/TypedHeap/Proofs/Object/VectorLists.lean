import TypedHeap.Proofs.Object.VectorStores

/-!
# Vectors under construction are lists

The length of a vector is known to its builder and written in front of the slots, and shortening empties the
slots behind the new end one by one. What can be read is a list some of whose elements may be missing: it starts
with nothing in it, a store sets one element, and shortening keeps the first ones.

* `SimpleVector.Lists`: a vector has the elements of a list.
* `SimpleVector.answer`, `SimpleVector.Reads`: what a list answers, and that a vector answers the same.

Main results: `Lists.reads`, `build_lists`, `Builder.set_lists`, `Builder.truncate_lists`,
`new_lists`.
-/

namespace TypedHeap.SimpleVector

open TypedHeap.Action (Meets runOn_bind_error)
open Heap

variable {h h' : Heap} {v x : Value} {b : Builder} {i n : Nat} {S : Value → Nat → Prop}
  {xs : List (Option Value)} {items : List Value}

/-! ## What is read -/

/-- What a list answers about an element, which may be missing. -/
def answer (xs : List (Option Value)) (i : Nat) : Except Error Value :=
  match xs[i]? with
  | some (some x) => .ok x
  | some none => .error (.undefined ("simple vector element " ++ toString i))
  | none => .error (.indexOutOfRange .element i xs.length)

/-- A vector has the elements of a list. -/
structure Lists (h : Heap) (v : Value) (xs : List (Option Value)) : Prop where
  type : h.typeOf v = .ok Builtin.simpleVector
  length : h.word v 0 = xs.length
  get : ∀ i x, get h v i = .ok x ↔ xs[i]? = some (some x)

theorem Lists.length_eq (hl : Lists h v xs) (hs : h.Sound) : SimpleVector.length h v = .ok xs.length :=
  (length_eq_ok hs).2 ⟨hl.type, hl.length⟩

/-- What a slot holds is the element, if there is one. -/
theorem Lists.slot_eq {o : Option Value} (hl : Lists h v xs) (hs : h.Sound) (ho : xs[i]? = some o) :
    h.slot v (refSize * (i + 1)) = o := by
  have hi : i < h.word v 0 := by
    rw [hl.length]
    exact (List.getElem?_eq_some_iff.1 ho).1
  refine Option.ext fun x => ?_
  have hget := hl.get i x
  rw [get_eq_ok hs, ho, Option.some.injEq] at hget
  exact ⟨fun hx => hget.1 ⟨hl.type, hi, hx⟩, fun hx => (hget.2 hx).2.2⟩

/-- A slot is out of range, filled or empty. -/
theorem get_cases (hs : h.Sound) (ht : h.typeOf v = .ok Builtin.simpleVector) (i : Nat) :
    get h v i = if h.word v 0 ≤ i then .error (.indexOutOfRange .element i (h.word v 0))
      else match h.slot v (refSize * (i + 1)) with
        | some x => .ok x
        | none => .error (.undefined ("simple vector element " ++ toString i)) := by
  rw [get, (length_eq_ok hs).2 ⟨ht, rfl⟩]
  by_cases hi : h.word v 0 ≤ i
  · rw [if_pos hi]
    exact if_pos hi
  · have hread := readRef_eq (slot_end_le hs ht (Nat.not_le.1 hi))
    rw [if_neg hi]
    refine (if_neg hi).trans ?_
    rw [slot, hread]
    cases h.slot v (refSize * (i + 1)) <;> rfl

/-- A vector answers as its list does. -/
theorem Lists.get_eq (hl : Lists h v xs) (hs : h.Sound) (i : Nat) : SimpleVector.get h v i = answer xs i := by
  rw [get_cases hs hl.type, hl.length, answer]
  cases ho : xs[i]? with
  | none => rw [if_pos (List.getElem?_eq_none_iff.1 ho)]
  | some o =>
    have hi := (List.getElem?_eq_some_iff.1 ho).1
    rw [if_neg (Nat.not_le.2 hi), hl.slot_eq hs ho]
    cases o <;> rfl

/-- All that can be asked of a vector is answered by a list. -/
structure Reads (h : Heap) (v : Value) (xs : List (Option Value)) : Prop where
  length : SimpleVector.length h v = .ok xs.length
  get : ∀ i, SimpleVector.get h v i = answer xs i

theorem Lists.reads (hl : Lists h v xs) (hs : h.Sound) : Reads h v xs := ⟨hl.length_eq hs, hl.get_eq hs⟩

/-- A vector keeps its list while nobody touches it. -/
theorem Lists.keeps (hl : Lists h v xs) (hs : h.Sound) (hs' : h'.Sound) (hk : Keeps S h h') (hS : ∀ k, ¬S v k) :
    Lists h' v xs where
  type := hk.typeOf hl.type
  length := by
    have hb : Builder.Holds ⟨v, xs.length⟩ h := ⟨hl.type, hl.length⟩
    exact (hb.keeps hs hk hS).length
  get i x := by
    rw [← hl.get i x]
    exact get_kept hs hs' hk (live_of_typeOf hl.type) (fun k _ => hS k) fun k _ => hS k

/-! ## What builders do -/

/-- A new vector has no element. -/
theorem build_lists (hr : Ready S h) (length : Nat) : Meets (Path S) (build length) h fun b h' =>
    ¬h.Live b.value ∧ b.length = length ∧ b.Holds h' ∧ Lists h' b.value (List.replicate length none) := by
  refine (build_new hr length).mono fun b h' _ hb => ?_
  obtain ⟨hfresh, rfl, hb, -, hempty⟩ := hb
  refine ⟨hfresh, rfl, hb, hb.type, by rw [hb.length, List.length_replicate], fun i x => ?_⟩
  refine (hempty i x).trans (iff_of_false nofun fun hx => ?_)
  cases List.eq_of_mem_replicate (List.mem_of_getElem? hx)

/-- A builder that knows its vector knows the length of its list. -/
theorem Lists.length_builder (hl : Lists h b.value xs) (hb : b.Holds h) : b.length = xs.length :=
  hb.length.symm.trans hl.length

/-- A store sets one element. -/
theorem Builder.set_lists (hs : h.Sound) (hb : b.Holds h) (hl : Lists h b.value xs) (hi : i < b.length) (x : Value) :
    Lists ((b.set i x).runOn h).2 b.value (xs.set i (some x)) := by
  have hstored := b.stored hs hb hi x
  have hb' := (b.after_set (S := fun _ _ => True) hs hb (fun _ => trivial) i x).2.1
  refine ⟨hb'.type, by rw [hb'.length, List.length_set, hl.length_builder hb], fun j y => ?_⟩
  by_cases hj : j = i
  · subst hj
    rw [hstored.element, List.getElem?_set_self (by rwa [← hl.length_builder hb])]
    simp
  · rw [hstored.others _ _ _ (.inr hj), hl.get, List.getElem?_set_ne (Ne.symm hj)]

/-- Shortening keeps the first elements. -/
theorem Builder.truncate_lists {length : Nat} (hs : h.Sound) (hb : b.Holds h) (hl : Lists h b.value xs)
    (hle : length ≤ b.length) : Lists ((b.truncate length).runOn h).2 b.value (xs.take length) := by
  obtain ⟨h', hrun, hpath, hb', -⟩ := b.runOn_truncate (S := fun _ _ => True) hs hb (fun _ => trivial) hle
  have hsame := fun j => b.slot_truncate (j := j) hs hb hle
  have hs' := hpath.sound hs
  rw [hrun] at hsame ⊢
  have hlength : h'.word b.value 0 = length := hb'.length
  refine ⟨hb'.type, ?_, fun j y => ?_⟩
  · rw [hlength, List.length_take_of_le (by rwa [← hl.length_builder hb])]
  · rw [get_eq_ok hs', hlength]
    rcases Nat.lt_or_ge j length with hj | hj
    · rw [hsame j hj, List.getElem?_take_of_lt hj, ← hl.get, get_eq_ok hs]
      exact ⟨fun h => ⟨hb.type, by rw [hb.length]; omega, h.2.2⟩, fun h => ⟨hb'.type, hj, h.2.2⟩⟩
    · rw [List.getElem?_eq_none (by rw [List.length_take]; omega)]
      exact iff_of_false (fun h => Nat.not_lt.2 hj h.2.1) (Option.some_ne_none (some y)).symm

/-- A vector of given references has them as its elements. -/
theorem new_lists (hs : h.Sound) (hrun : (new items).runOn h = (.ok v, h')) : Lists h' v (items.map some) := by
  rcases hbuild : (build items.length).runOn h with ⟨e | b, h₁⟩
  · rw [new, runOn_bind_error hbuild] at hrun
    cases hrun
  · obtain ⟨h₂, hnew, -, -, hlength, hb, hcontains⟩ := new_of_build hs hbuild
    cases hnew.symm.trans hrun
    refine ⟨hb.type, by rw [hb.length, hlength, List.length_map], fun i x => ?_⟩
    rw [List.getElem?_map]
    refine (hcontains i x).trans ?_
    simp

end TypedHeap.SimpleVector
