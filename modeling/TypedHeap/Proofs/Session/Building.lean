import TypedHeap.Proofs.Object.VectorLists
import TypedHeap.Proofs.Session.Isolation
import TypedHeap.Proofs.Session.Vectors

/-!
# Building a vector is building a list

From the moment it is begun a vector is a list, whatever else happens in its heap: only what its builder is told
to do changes the list, and once the vector is handed out nothing does.

* `Operation.relist`: what an operation makes of the list of a vector under construction.
* `Session.Fills`: the list of a vector after a run.
* `Session.Offers`: what a builder will do and refuse, by the list of its vector.

Main result: `Session.Reachable.vectors_built`.
-/

namespace TypedHeap

open Heap SimpleVector

/-- What an operation makes of the list of a vector under construction, if it succeeds. -/
def Operation.relist {α : Type} : Operation α → Value → List (Option Value) → List (Option Value)
  | .builderSet b i x, v, xs => if b.value = v then xs.set i (some x) else xs
  | .builderTruncate b length, v, xs => if b.value = v then xs.take length else xs
  | _, _, xs => xs

namespace Session

variable {α : Type} {s t : Session} {v : Value} {b : Builder} {xs ys : List (Option Value)}

/-! ## One operation -/

/-- The list of a vector after an operation. One that fails changes nothing. -/
def listAfter (s : Session) (o : Operation α) (v : Value) (xs : List (Option Value)) : List (Option Value) :=
  match (o.perform.runOn s.heap).1 with
  | .ok _ => o.relist v xs
  | .error _ => xs

theorem listAfter_ok {o : Operation α} {a : α} (hrun : (o.perform.runOn s.heap).1 = .ok a) :
    s.listAfter o v xs = o.relist v xs := by
  rw [listAfter, hrun]

theorem listAfter_error {o : Operation α} {e : Error} (hrun : (o.perform.runOn s.heap).1 = .error e) :
    s.listAfter o v xs = xs := by
  rw [listAfter, hrun]

/-- An operation with another builder, or with none, does not concern a list. -/
theorem listAfter_other {o : Operation α} (hother : ∀ b, o.builder? = some b → b.value ≠ v) :
    s.listAfter o v xs = xs := by
  have hrelist : o.relist v xs = xs := by
    cases o with
    | builderSet b i x => exact if_neg (hother b rfl)
    | builderTruncate b length => exact if_neg (hother b rfl)
    | _ => rfl
  rw [listAfter, hrelist]
  split <;> rfl

/-- Nobody but its builder changes the list of a vector. -/
theorem Sound.lists_other (hs : s.Sound) (o : Operation α) (allowed : s.Allows o)
    (hl : Lists s.heap v xs) (hother : ∀ b, o.builder? = some b → b.value ≠ v) :
    Lists (s.next o).heap v xs := by
  refine hl.keeps hs.heap (next_sound hs o allowed).heap (hs.keeps_next o allowed) fun k hor => ?_
  rcases hor with haddr | hdead
  · rcases Operation.changeable_of_addresses hs.heap haddr with hopen | ⟨b, hb, hv⟩
    · exact Operation.not_changeable_of_vector hs.heap hl.type hopen
    · exact hother b hb hv.symm
  · exact hdead (live_of_typeOf hl.type)

/-- A store of an object is done if the index is below the length. -/
theorem Sound.store_accepted (hs : s.Sound) (hb : b ∈ s.builders) {i : Nat} {x : Value} (hi : i < b.length)
    (hx : s.heap.Live x) : ((Operation.builderSet b i x).perform.runOn s.heap).1 = .ok () :=
  (b.stored hs.heap (hs.builders b hb) hi x).object hx

/-- A vector is shortened to any length that is not above its own. -/
theorem Sound.truncate_accepted (hs : s.Sound) (hb : b ∈ s.builders) {length : Nat} (hle : length ≤ b.length) :
    ((Operation.builderTruncate b length).perform.runOn s.heap).1 = .ok { b with length } := by
  obtain ⟨h', hrun, -⟩ :=
    b.runOn_truncate (S := fun _ _ => True) hs.heap (hs.builders b hb) (fun _ => trivial) hle
  exact congrArg Prod.fst hrun

/-- A vector follows its list through an operation. -/
theorem Sound.lists_next (hs : s.Sound) (o : Operation α) (allowed : s.Allows o) (minds : o.Minds v s.heap)
    (hl : Lists s.heap v xs) : Lists (s.next o).heap v (s.listAfter o v xs) := by
  by_cases hother : ∀ b, o.builder? = some b → b.value ≠ v
  · rw [listAfter_other hother]
    exact hs.lists_other o allowed hl hother
  · obtain ⟨b, hb, rfl⟩ : ∃ b, o.builder? = some b ∧ b.value = v := by
      simpa only [not_forall, not_not, exists_prop] using hother
    have hholds := hs.builders b (allowed b hb)
    rw [next_heap]
    cases o with
    | builderSet c i x =>
      cases hb
      rcases Nat.lt_or_ge i b.length with hi | hi
      · rw [listAfter_ok (hs.store_accepted (allowed b rfl) hi (minds rfl)), Operation.relist, if_pos rfl]
        exact b.set_lists hs.heap hholds hl hi x
      · have hrun : (Operation.builderSet b i x).perform.runOn s.heap = _ := b.runOn_set_error hi x
        rw [listAfter_error (congrArg Prod.fst hrun), hrun]
        exact hl
    | builderTruncate c length =>
      cases hb
      rcases Nat.lt_or_ge b.length length with hlt | hle
      · have hrun : (Operation.builderTruncate b length).perform.runOn s.heap = _ := Builder.runOn_truncate_error hlt
        rw [listAfter_error (congrArg Prod.fst hrun), hrun]
        exact hl
      · rw [listAfter_ok (hs.truncate_accepted (allowed b rfl) hle), Operation.relist, if_pos rfl]
        exact b.truncate_lists hs.heap hholds hl hle
    | publish c => exact hl
    | _ => cases hb

/-! ## Any number of operations -/

/-- The list of a vector after a run in which it is given objects only. -/
inductive Fills (v : Value) (s : Session) (xs : List (Option Value)) : Session → List (Option Value) → Prop
  | refl : Fills v s xs s xs
  | next {α : Type} {t : Session} {ys : List (Option Value)} (before : Fills v s xs t ys) (o : Operation α)
      (allowed : t.Allows o) (minds : o.Minds v t.heap) : Fills v s xs (t.next o) (t.listAfter o v ys)

theorem Fills.leads (h : Fills v s xs t ys) : Leads s t := by
  induction h with
  | refl => exact .refl
  | next _ o allowed _ ih => exact ih.next o allowed

/-- By induction on the run. -/
theorem Fills.lists (h : Fills v s xs t ys) (hs : s.Sound) (hl : Lists s.heap v xs) : Lists t.heap v ys := by
  induction h with
  | refl => exact hl
  | next before o allowed minds ih => exact (before.leads.sound hs).lists_next o allowed minds ih

/-! ## Vectors that are handed out -/

/-- A vector without a builder is final. -/
theorem Sound.final_of_vector (hs : s.Sound) (ht : s.heap.typeOf v = .ok Builtin.simpleVector)
    (hb : ∀ b ∈ s.builders, b.value ≠ v) : s.Final v :=
  ⟨_, descriptor_eq_ok.2 ⟨_, ht, hs.heap.descriptor_simpleVector⟩, hb⟩

/-- A final vector keeps its list for good. -/
theorem Leads.lists (h : Leads s t) (hs : s.Sound) (hf : s.Final v) (hl : Lists s.heap v xs) :
    Lists t.heap v xs :=
  hl.keeps hs.heap (h.sound hs).heap (h.keeps hs) fun _ hopen => hopen hf

theorem Sound.final_publish (hs : s.Sound) (hb : b ∈ s.builders) : (s.next (.publish b)).Final b.value := by
  have hnext : s.next (.publish b) = { s with builders := s.builders.erase b } := rfl
  have hsound := next_sound hs (.publish b) (allows_of_mem rfl hb)
  refine hsound.final_of_vector ?_ fun c hc heq => ?_
  · rw [hnext]
    exact (hs.builders b hb).type
  · rw [hnext] at hc
    exact (List.nodup_cons.1 (hs.nodup_erase hb)).1 (List.mem_map.2 ⟨c, hc, heq⟩)

/-- What a builder does and what it refuses, by the list of its vector. -/
structure Offers (s : Session) (b : Builder) (xs : List (Option Value)) : Prop where
  length : b.length = xs.length
  /-- An object is stored below the end of the list, and nowhere else. -/
  store : ∀ i x, i < xs.length → s.heap.Live x →
    ((Operation.builderSet b i x).perform.runOn s.heap).1 = .ok ()
  storeRefused : ∀ i x, xs.length ≤ i →
    (Operation.builderSet b i x).perform.runOn s.heap = (.error (.indexOutOfRange .element i xs.length), s.heap)
  /-- The list is shortened, and never made longer. -/
  truncate : ∀ k, k ≤ xs.length →
    ((Operation.builderTruncate b k).perform.runOn s.heap).1 = .ok { b with length := k }
  truncateRefused : ∀ k, xs.length < k →
    (Operation.builderTruncate b k).perform.runOn s.heap = (.error (.indexOutOfRange .element k xs.length), s.heap)
  /-- The vector is handed out as it is, and stays so. -/
  publish : (Operation.publish b).perform.runOn s.heap = (.ok b.value, s.heap) ∧
    ∀ t, Leads (s.next (.publish b)) t → Reads t.heap b.value xs

theorem Sound.offers (hs : s.Sound) (hb : b ∈ s.builders) (hl : Lists s.heap b.value xs) : s.Offers b xs := by
  have hlength := hl.length_builder (hs.builders b hb)
  refine ⟨hlength, fun i x hi hx => hs.store_accepted hb (hlength ▸ hi) hx, fun i x hi => ?_,
    fun k hk => hs.truncate_accepted hb (hlength ▸ hk), fun k hk => ?_, rfl, fun t h => ?_⟩
  · rw [← hlength] at hi ⊢
    exact b.runOn_set_error hi x
  · rw [← hlength] at hk ⊢
    exact Builder.runOn_truncate_error hk
  · have hsound := next_sound hs (.publish b) (allows_of_mem rfl hb)
    exact (h.lists hsound (hs.final_publish hb) hl).reads (h.sound hsound).heap

/-- A vector of given references never has a builder. -/
theorem Sound.final_new {items : List Value} (hs : s.Sound)
    (hrun : ((Operation.newSimpleVector items).perform.runOn s.heap).1 = .ok v) :
    (s.next (.newSimpleVector items)).Final v ∧ Lists (s.next (.newSimpleVector items)).heap v (items.map some) := by
  have hnew : (Operation.newSimpleVector items).perform.runOn s.heap =
      (.ok v, ((Operation.newSimpleVector items).perform.runOn s.heap).2) := Prod.ext hrun rfl
  have hfresh : ¬s.heap.Live v := ((SimpleVector.new_meets ⟨hs.heap, fun _ _ => trivial⟩ items).answer v hrun).1
  have hl : Lists (s.next (.newSimpleVector items)).heap v (items.map some) := by
    rw [next_heap]
    exact new_lists hs.heap hnew
  refine ⟨(next_sound hs _ (allows_of_none rfl)).final_of_vector hl.type fun b hb heq => ?_, hl⟩
  rw [next_ok hnew] at hb
  rw [← heq] at hfresh
  exact hfresh (live_of_typeOf (hs.builders b hb).type)

/-- In every heap that operations lead to, and for every length:

* a vector that is begun is a list without elements, which goes on as lists do while its builder is given
  objects. Whatever happens in between, the vector answers as the list does, and its builder does and refuses
  what the list says; handed out, the vector answers so at every later time;
* a vector of given references reads as them at every later time. -/
theorem Reachable.vectors_built (hs : Reachable s) :
    (∀ n b, ((Operation.build n).perform.runOn s.heap).1 = .ok b →
      ∀ t xs, Fills b.value (s.next (.build n)) (List.replicate n none) t xs →
        Reads t.heap b.value xs ∧ ∀ c ∈ t.builders, c.value = b.value → t.Offers c xs) ∧
    ∀ items v, ((Operation.newSimpleVector items).perform.runOn s.heap).1 = .ok v →
      ∀ t, Leads (s.next (.newSimpleVector items)) t → Reads t.heap v (items.map some) := by
  have hsound := hs.sound
  refine ⟨fun n b hrun t xs h => ?_, fun items v hrun t h => ?_⟩
  · have hnext := next_sound hsound (.build n) (allows_of_none rfl)
    have hbegun : Lists (s.next (.build n)).heap b.value (List.replicate n none) := by
      rw [next_heap]
      exact ((build_lists ⟨hsound.heap, fun _ _ => trivial⟩ n).answer b hrun).2.2.2
    have hl := h.lists hnext hbegun
    have ht := h.leads.sound hnext
    refine ⟨hl.reads ht.heap, fun c hc heq => ?_⟩
    rw [← heq] at hl
    exact ht.offers hc hl
  · have hnext := next_sound hsound (.newSimpleVector items) (allows_of_none rfl)
    obtain ⟨hfinal, hl⟩ := hsound.final_new hrun
    exact (h.lists hnext hfinal hl).reads (h.sound hnext).heap

/-- A string, and a vector of three slots whose builder is in hand. -/
def drafted : Session := start ⟨64, 4096⟩ .off |>.next (.newString "text") |>.next (.build 3)

/-- The string goes into the second slot. -/
def pencilled : Session := drafted.next (.builderSet ⟨object 48, 3⟩ 1 (object 16))

/-- Another string is made, and the third slot is given up. -/
def shortened : Session := pencilled.next (.newString "more") |>.next (.builderTruncate ⟨object 48, 3⟩ 2)

theorem vectors_built_shortened :
    Reachable shortened ∧ Fills (object 48) drafted [none, none, none] shortened [none, some (object 16)] ∧
      Reads shortened.heap (object 48) [none, some (object 16)] ∧
      ⟨object 48, 2⟩ ∈ shortened.builders ∧ shortened.Offers ⟨object 48, 2⟩ [none, some (object 16)] ∧
      ((Operation.newSimpleVector [object 16]).perform.runOn shortened.heap).1 = .ok (object 128) ∧
      Reads (shortened.next (.newSimpleVector [object 16])).heap (object 128) [some (object 16)] := by
  have hstart : Reachable (start ⟨64, 4096⟩ .off |>.next (.newString "text")) :=
    (reachable_start _ _).next _ (allows_of_none rfl)
  have hdrafted : Fills (object 48) drafted [none, none, none] drafted [none, none, none] := .refl
  have hset := hdrafted.next (.builderSet ⟨object 48, 3⟩ 1 (object 16)) (allows_of_mem rfl (by decide +kernel))
    fun _ => ⟨12, by decide +kernel⟩
  have hmade := hset.next (.newString "more") (allows_of_none rfl) trivial
  have hcut := hmade.next (.builderTruncate ⟨object 48, 3⟩ 2)
    (allows_of_mem rfl (by decide +kernel)) trivial
  have hlist : (pencilled.next (.newString "more")).listAfter (.builderTruncate ⟨object 48, 3⟩ 2) (object 48)
      (pencilled.listAfter (.newString "more") (object 48)
        (drafted.listAfter (.builderSet ⟨object 48, 3⟩ 1 (object 16)) (object 48) [none, none, none])) =
      [none, some (object 16)] := by decide +kernel
  have hfills : Fills (object 48) drafted [none, none, none] shortened [none, some (object 16)] := hlist ▸ hcut
  have hshortened : Reachable shortened := (hstart.next _ (allows_of_none rfl)).leads hfills.leads
  have hbuilder : ⟨object 48, 2⟩ ∈ shortened.builders := by decide +kernel
  have hnew : ((Operation.newSimpleVector [object 16]).perform.runOn shortened.heap).1 = .ok (object 128) := by
    decide +kernel
  obtain ⟨hreads, hoffers⟩ := hstart.vectors_built.1 3 ⟨object 48, 3⟩ (by decide +kernel) _ _ hfills
  exact ⟨hshortened, hfills, hreads, hbuilder, hoffers _ hbuilder rfl, hnew,
    hshortened.vectors_built.2 [object 16] _ hnew _ .refl⟩

end Session

end TypedHeap
