import Mathlib.Data.List.Nodup
import TypedHeap.Proofs.Session.Operation

/-!
# Runs of operations

A caller has a heap, and the builders that the heap handed out and did not get back. Nobody can make up
a builder, as a value can be made up, so an operation on a builder is one on a builder in hand.

* `Session`: a heap and what a caller has in hand.
* `Session.next`: the session after an operation, which may have failed.
* `Session.Leads`, `Session.Reachable`: after any number of operations.
* `Session.Sound`: what holds of every session.

Main results: `Session.next_sound`, `Session.Reachable.sound`, and `Session.Leads.preserves`,
`Session.Reachable.invariant`, by which properties of heaps are carried along a run.
-/

namespace TypedHeap

open TypedHeap.Action (Meets)
open Heap SimpleVector

/-- A heap, the builders in hand, and the arrays that were asked for. -/
structure Session where
  heap : Heap
  builders : List Builder
  arrays : List Value

namespace Session

variable {α : Type} {s t : Session}

/-! ## Steps -/

/-- A session with a new heap. -/
def start (config : HeapConfig) (barrier : Barrier) : Session := ⟨Heap.fresh config barrier, [], []⟩

/-- The object that is allocated first. -/
def firstObject : Value := ⟨payloadAlign, by decide, by decide⟩

/-- The object at an address, the first one where there is none. -/
def object (addr : Nat) : Value := (Value.ofWord? addr).getD firstObject

/-- The type with a number, the first one where there is none. -/
def typeAt (n : Nat) : TypeRef := (TypeRef.ofIndex? n).getD TypeRef.first

/-- The caller gets an answer. -/
def receive (s : Session) : Operation α → α → Session
  | .build _, b => { s with builders := b :: s.builders }
  | .builderTruncate b _, b' => { s with builders := b' :: s.builders.erase b }
  | .publish b, _ => { s with builders := s.builders.erase b }
  | .newArray _ _, a | .newVector _ _, a | .reshape _ _, a => { s with arrays := a :: s.arrays }
  | _, _ => s

/-- The session after an operation. What the operation did before it failed stays done. -/
def next (s : Session) (o : Operation α) : Session :=
  match o.perform.runOn s.heap with
  | (.ok a, h) => { s with heap := h }.receive o a
  | (.error _, h) => { s with heap := h }

/-- An operation on a builder needs the builder. -/
def Allows (s : Session) (o : Operation α) : Prop := ∀ b, o.builder? = some b → b ∈ s.builders

/-- Any number of operations, one after the other. -/
inductive Leads (s : Session) : Session → Prop
  | refl : Leads s s
  | next {α : Type} {t : Session} (before : Leads s t) (o : Operation α) (allowed : t.Allows o) :
      Leads s (t.next o)

/-- A session that operations lead to from a new heap. -/
def Reachable (s : Session) : Prop := ∃ config barrier, Leads (start config barrier) s

theorem reachable_start (config : HeapConfig) (barrier : Barrier) : Reachable (start config barrier) :=
  ⟨config, barrier, .refl⟩

theorem Leads.trans {u : Session} (h : Leads s t) (h' : Leads t u) : Leads s u := by
  induction h' with
  | refl => exact h
  | next _ o allowed ih => exact ih.next o allowed

theorem Reachable.leads (hs : Reachable s) (h : Leads s t) : Reachable t := by
  obtain ⟨config, barrier, hs⟩ := hs
  exact ⟨config, barrier, hs.trans h⟩

theorem Reachable.next (hs : Reachable s) (o : Operation α) (allowed : s.Allows o) :
    Reachable (s.next o) := by
  obtain ⟨config, barrier, h⟩ := hs
  exact ⟨config, barrier, h.next o allowed⟩

/-- An operation without a builder is always allowed. -/
theorem allows_of_none {o : Operation α} (h : o.builder? = none) : s.Allows o := by
  intro b hb
  rw [h] at hb
  cases hb

/-- An operation on a builder in hand is allowed. -/
theorem allows_of_mem {o : Operation α} {b : Builder} (ho : o.builder? = some b) (hb : b ∈ s.builders) : s.Allows o := by
  intro c hc
  cases ho.symm.trans hc
  exact hb

theorem next_ok {o : Operation α} {a : α} {h : Heap} (hrun : o.perform.runOn s.heap = (.ok a, h)) :
    s.next o = { s with heap := h }.receive o a := by
  rw [next, hrun]

theorem next_error {o : Operation α} {e : Error} {h : Heap}
    (hrun : o.perform.runOn s.heap = (.error e, h)) : s.next o = { s with heap := h } := by
  rw [next, hrun]

theorem receive_heap (s : Session) (o : Operation α) (a : α) : (s.receive o a).heap = s.heap := by
  cases o <;> rfl

theorem next_heap (s : Session) (o : Operation α) : (s.next o).heap = (o.perform.runOn s.heap).2 := by
  rcases hrun : o.perform.runOn s.heap with ⟨r, h⟩
  cases r with
  | ok a => rw [next_ok hrun, receive_heap]
  | error e => rw [next_error hrun]

/-! ## Soundness -/

/-- What holds of every session: builders know their vectors, each a different one, and the arrays that
were asked for are arrays. -/
structure Sound (s : Session) : Prop where
  heap : s.heap.Sound
  builders : ∀ b ∈ s.builders, b.Holds s.heap
  distinct : (s.builders.map Builder.value).Nodup
  arrays : ∀ a ∈ s.arrays, ∃ f, s.heap.IsArray a f

theorem start_sound (config : HeapConfig) (barrier : Barrier) : (start config barrier).Sound :=
  ⟨sound_fresh config barrier, nofun, .nil, nofun⟩

namespace Sound

theorem meets (hs : s.Sound) (o : Operation α) (allowed : s.Allows o) :
    Meets (Trail fun v k => o.Addresses s.heap v k ∨ ¬s.heap.Live v) o.perform s.heap (o.Gives s.heap) :=
  o.perform_meets hs.heap fun b hb => hs.builders b (allowed b hb)

/-- An operation keeps what was there, apart from what it addresses. -/
theorem keeps_next (hs : s.Sound) (o : Operation α) (allowed : s.Allows o) :
    Keeps (fun v k => o.Addresses s.heap v k ∨ ¬s.heap.Live v) s.heap (s.next o).heap := by
  rw [next_heap]
  exact (hs.meets o allowed).kept.keeps hs.heap

/-- Builders in hand have different vectors. -/
theorem eq_of_value {b c : Builder} (hs : s.Sound) (hb : b ∈ s.builders) (hc : c ∈ s.builders)
    (h : b.value = c.value) : b = c :=
  List.inj_on_of_nodup_map hs.distinct hb hc h

theorem nodup_erase {b : Builder} (hs : s.Sound) (hb : b ∈ s.builders) :
    (b.value :: (s.builders.erase b).map Builder.value).Nodup :=
  ((List.perm_cons_erase hb).map Builder.value).nodup_iff.1 hs.distinct

theorem mem_erase {b c : Builder} (hs : s.Sound) : c ∈ s.builders.erase b ↔ c ≠ b ∧ c ∈ s.builders :=
  (hs.distinct.of_map _).mem_erase_iff

/-- A builder that an operation does not take keeps its vector. -/
theorem holds_of_other {b : Builder} (hs : s.Sound) (o : Operation α) (allowed : s.Allows o)
    (hb : b ∈ s.builders) (hother : o.builder? ≠ some b) : b.Holds (o.perform.runOn s.heap).2 := by
  have hold := hs.builders b hb
  refine hold.keeps hs.heap ((hs.meets o allowed).kept.keeps hs.heap) fun j hor => ?_
  rcases hor with haddr | hdead
  · rcases Operation.changeable_of_addresses hs.heap haddr with hopen | ⟨c, hc, hv⟩
    · exact Operation.not_changeable_of_vector hs.heap hold.type hopen
    · rw [hs.eq_of_value hb (allowed c hc) hv] at hother
      exact hother hc
  · exact hdead (live_of_typeOf hold.type)

end Sound

/-- An operation on a builder that fails leaves it as it was. -/
theorem holds_of_error {b : Builder} {h h' : Heap} {e : Error} {o : Operation α} (hs : h.Sound)
    (hb : b.Holds h) (ho : o.builder? = some b) (hrun : o.perform.runOn h = (.error e, h')) :
    b.Holds h' := by
  cases o with
  | builderSet c i x =>
    cases ho
    have hset := (b.after_set (S := fun _ _ => True) hs hb (fun _ => trivial) i x).2.1
    have hheap : ((b.set i x).runOn h).2 = h' := congrArg Prod.snd hrun
    rwa [hheap] at hset
  | builderTruncate c length =>
    cases ho
    have hrun : (b.truncate length).runOn h = (.error e, h') := hrun
    rcases Nat.lt_or_ge b.length length with hlt | hle
    · rw [Builder.runOn_truncate_error hlt] at hrun
      cases hrun
      exact hb
    · obtain ⟨h₁, hok, -⟩ := b.runOn_truncate (S := fun _ _ => True) hs hb (fun _ => trivial) hle
      rw [hok] at hrun
      cases hrun
  | publish c => cases hrun
  | _ => cases ho

theorem next_sound (hs : s.Sound) (o : Operation α) (allowed : s.Allows o) : (s.next o).Sound := by
  have hm := hs.meets o allowed
  have hother {b : Builder} := hs.holds_of_other (b := b) o allowed
  have hheap := hm.kept.sound hs.heap
  have harrays : ∀ a ∈ s.arrays, ∃ f, (o.perform.runOn s.heap).2.IsArray a f := fun a ha => by
    obtain ⟨f, hf⟩ := hs.arrays a ha
    exact hm.kept.isArray hs.heap hf
  have hgives := hm.answer
  rcases hrun : o.perform.runOn s.heap with ⟨r, h⟩
  rw [hrun] at hother hheap harrays hgives
  cases r with
  | error e =>
    rw [next_error hrun]
    refine ⟨hheap, fun b hb => ?_, hs.distinct, harrays⟩
    by_cases ho : o.builder? = some b
    · exact holds_of_error hs.heap (hs.builders b hb) ho hrun
    · exact hother hb ho
  | ok a =>
    rw [next_ok hrun]
    have hgives := hgives a rfl
    have hgrown {v : Value} (hf : ∃ f, h.IsArray v f) : ∀ a ∈ v :: s.arrays, ∃ f, h.IsArray a f :=
      List.forall_mem_cons.2 ⟨hf, harrays⟩
    cases o with
    | build length =>
      obtain ⟨hfresh, hb⟩ := hgives
      refine ⟨hheap, List.forall_mem_cons.2 ⟨hb, fun c hc => hother hc nofun⟩, ?_, harrays⟩
      refine List.nodup_cons.2 ⟨fun hmem => ?_, hs.distinct⟩
      obtain ⟨c, hc, heq⟩ := List.mem_map.1 hmem
      rw [← heq] at hfresh
      exact hfresh (live_of_typeOf (hs.builders c hc).type)
    | builderSet b i x =>
      refine ⟨hheap, fun c hc => ?_, hs.distinct, harrays⟩
      by_cases heq : c = b
      · rw [heq]
        exact hgives
      · exact hother hc fun h => heq (Option.some.inj h).symm
    | builderTruncate b length =>
      obtain ⟨rfl, hb⟩ := hgives
      refine ⟨hheap, List.forall_mem_cons.2 ⟨hb, fun c hc => ?_⟩, hs.nodup_erase (allowed b rfl), harrays⟩
      obtain ⟨hne, hc⟩ := hs.mem_erase.1 hc
      exact hother hc fun h => hne (Option.some.inj h).symm
    | publish b =>
      refine ⟨hheap, fun c hc => ?_, (List.nodup_cons.1 (hs.nodup_erase (allowed b rfl))).2, harrays⟩
      obtain ⟨hne, hc⟩ := hs.mem_erase.1 hc
      exact hother hc fun h => hne (Option.some.inj h).symm
    | newArray elem dims => exact ⟨hheap, fun b hb => hother hb nofun, hs.distinct, hgrown hgives⟩
    | newVector elem length => exact ⟨hheap, fun b hb => hother hb nofun, hs.distinct, hgrown hgives⟩
    | reshape a dims => exact ⟨hheap, fun b hb => hother hb nofun, hs.distinct, hgrown hgives⟩
    | _ => exact ⟨hheap, fun b hb => hother hb nofun, hs.distinct, harrays⟩

theorem Leads.sound (h : Leads s t) (hs : s.Sound) : t.Sound := by
  induction h with
  | refl => exact hs
  | next _ o allowed ih => exact next_sound ih o allowed

theorem Reachable.sound (hs : Reachable s) : s.Sound := by
  obtain ⟨config, barrier, h⟩ := hs
  exact h.sound (start_sound config barrier)

/-! ## What runs keep -/

/-- What every trail between sound heaps keeps, a run keeps. By induction on the run. -/
theorem Leads.preserves {P : Heap → Prop} (h : Leads s t) (hs : s.Sound)
    (htrail : ∀ {S h₁ h₂}, Trail S h₁ h₂ → h₁.Sound → P h₁ → P h₂) (hp : P s.heap) : P t.heap := by
  induction h with
  | refl => exact hp
  | next before o allowed ih =>
    have hsound := before.sound hs
    rw [next_heap]
    exact htrail (hsound.meets o allowed).kept hsound.heap ih

/-- What holds of new heaps, and is kept by every trail, holds in every heap that operations lead to. -/
theorem Reachable.invariant {P : Heap → Prop} (hs : Reachable s) (hfresh : ∀ config barrier, P (fresh config barrier))
    (htrail : ∀ {S h₁ h₂}, Trail S h₁ h₂ → h₁.Sound → P h₁ → P h₂) : P s.heap := by
  obtain ⟨config, barrier, h⟩ := hs
  exact h.preserves (start_sound config barrier) htrail (hfresh config barrier)

/-- An array stays an array. -/
theorem Leads.isArray {a : Value} {f : ArrayInfo} (h : Leads s t) (hs : s.Sound)
    (ha : s.heap.IsArray a f) : ∃ g, t.heap.IsArray a g :=
  h.preserves (P := fun h' => ∃ g, h'.IsArray a g) hs (fun trail hs ⟨_, ha⟩ => trail.isArray hs ha) ⟨f, ha⟩

end Session

end TypedHeap
