import TypedHeap.Proofs.Object.VectorStores
import TypedHeap.Proofs.Session.Generations

/-!
# Vectors along a run

A vector holds what its builder was given, and nobody else changes it. References that name no object are not kept
out: a store fails only if the barrier happens to look at what is stored, and the slot is written even then. What a
vector answers are objects as long as its builder is given nothing else.

* `Operation.Minds`: an operation stores objects alone in a vector.
* `Session.Minding`: runs of such operations.

Main result: `Session.Reachable.vector_stores`.
-/

namespace TypedHeap

open Heap SimpleVector

/-- If an operation stores something in a vector that is under construction, it is an object. -/
def Operation.Minds {α : Type} : Operation α → Value → Heap → Prop
  | .builderSet b _ x, v, h => b.value = v → h.Live x
  | _, _, _ => True

/-- What can be read from a vector are objects. -/
def SimpleVector.NamesObjects (h : Heap) (v : Value) : Prop := ∀ i x, SimpleVector.get h v i = .ok x → h.Live x

namespace Session

variable {α : Type} {s t : Session} {v : Value}

/-- Runs in which a vector is given objects only. -/
inductive Minding (v : Value) (s : Session) : Session → Prop
  | refl : Minding v s s
  | next {α : Type} {t : Session} (before : Minding v s t) (o : Operation α) (allowed : t.Allows o)
      (minds : o.Minds v t.heap) : Minding v s (t.next o)

theorem Minding.leads (h : Minding v s t) : Leads s t := by
  induction h with
  | refl => exact .refl
  | next _ o allowed _ ih => exact ih.next o allowed

/-- Nobody but its builder changes the elements of a vector. -/
theorem Sound.get_next (hs : s.Sound) (o : Operation α) (allowed : s.Allows o)
    (ht : s.heap.typeOf v = .ok Builtin.simpleVector) (hother : ∀ b, o.builder? = some b → b.value ≠ v)
    (i : Nat) (x : Value) :
    SimpleVector.get (s.next o).heap v i = .ok x ↔ SimpleVector.get s.heap v i = .ok x := by
  have hlive := live_of_typeOf ht
  have hfree (k : Nat) : ¬(o.Addresses s.heap v k ∨ ¬s.heap.Live v) := by
    rintro (haddr | hdead)
    · rcases Operation.changeable_of_addresses hs.heap haddr with hopen | ⟨b, hb, hv⟩
      · exact Operation.not_changeable_of_vector hs.heap ht hopen
      · exact hother b hb hv.symm
    · exact hdead hlive
  exact get_kept hs.heap (next_sound hs o allowed).heap (hs.keeps_next o allowed) hlive (fun k _ => hfree k)
    fun k _ => hfree k

/-- A vector whose elements are objects keeps to objects if its builder does. -/
theorem Sound.namesObjects_next (hs : s.Sound) (o : Operation α) (allowed : s.Allows o)
    (minds : o.Minds v s.heap) (ht : s.heap.typeOf v = .ok Builtin.simpleVector)
    (hv : NamesObjects s.heap v) : NamesObjects (s.next o).heap v := by
  have hlive {x : Value} : s.heap.Live x → (s.next o).heap.Live x := (hs.keeps_next o allowed).live
  by_cases hother : ∀ b, o.builder? = some b → b.value ≠ v
  · exact fun i x hx => hlive (hv i x ((hs.get_next o allowed ht hother i x).1 hx))
  · obtain ⟨b, hb, rfl⟩ : ∃ b, o.builder? = some b ∧ b.value = v := by
      simpa only [not_forall, not_not, exists_prop] using hother
    have hholds := hs.builders b (allowed b hb)
    intro j y hy
    have hheap := next_heap s o
    cases o with
    | builderSet c i x =>
      cases hb
      rw [hheap] at hy
      rcases Nat.lt_or_ge i b.length with hi | hi
      · have hstored := b.stored hs.heap hholds hi x
        by_cases hj : j = i
        · subst hj
          cases hstored.element.symm.trans hy
          exact hlive (minds rfl)
        · exact hlive (hv j y ((hstored.others b.value j y (.inr hj)).1 hy))
      · have hrun : (Operation.builderSet b i x).perform.runOn s.heap = _ := b.runOn_set_error hi x
        rw [hrun] at hy
        exact hlive (hv j y hy)
    | builderTruncate c length =>
      cases hb
      rw [hheap] at hy
      exact hlive (hv j y (b.get_truncate hs.heap hholds hy))
    | publish c => exact hlive (hv j y hy)
    | _ => cases hb

/-- By induction on the run. -/
theorem Minding.namesObjects (h : Minding v s t) (hs : s.Sound) (ht : s.heap.typeOf v = .ok Builtin.simpleVector)
    (hv : NamesObjects s.heap v) : t.heap.typeOf v = .ok Builtin.simpleVector ∧ NamesObjects t.heap v := by
  induction h with
  | refl => exact ⟨ht, hv⟩
  | next before o allowed minds ih =>
    have hsound := before.leads.sound hs
    exact ⟨(hsound.keeps_next o allowed).typeOf ih.1, hsound.namesObjects_next o allowed minds ih.1 ih.2⟩

/-- In every heap that operations lead to:

* a store behind the end of a vector under construction fails and changes nothing;
* any other store writes its slot and no other, whether it is an object that is stored or not. It fails only for
  what is no object, in an old vector that is not remembered, and the slot is written even then;
* a new vector holds the references that it was given, whatever they name;
* what a vector answers are objects as long as its builder is given nothing else. -/
theorem Reachable.vector_stores (hs : Reachable s) :
    (∀ b ∈ s.builders, ∀ i x, b.length ≤ i →
      (Operation.builderSet b i x).perform.runOn s.heap =
        (.error (.indexOutOfRange .element i b.length), s.heap)) ∧
    (∀ b ∈ s.builders, ∀ i x, i < b.length →
      Stored s.heap b.value i x ((Operation.builderSet b i x).perform.runOn s.heap)) ∧
    (∀ items, Built s.heap items ((Operation.newSimpleVector items).perform.runOn s.heap)) ∧
    ∀ v, s.heap.typeOf v = .ok Builtin.simpleVector → NamesObjects s.heap v →
      ∀ t, Minding v s t → NamesObjects t.heap v := by
  have hsound := hs.sound
  refine ⟨fun b _ i x hi => b.runOn_set_error hi x, fun b hb i x hi => ?_, built_new hsound.heap,
    fun v ht hv t hrun => (hrun.namesObjects hsound ht hv).2⟩
  exact b.stored hsound.heap (hsound.builders b hb) hi x

/-- An address behind all objects. -/
def nowhere : Value := object 4096

/-- A builder with a vector of one slot. -/
def begun : Session := start ⟨64, 4096⟩ .off |>.next (.build 1)

theorem reachable_begun : Reachable begun := (reachable_start _ _).next _ (allows_of_none rfl)

theorem nowhere_dead {h : Heap} (hn : h.objects.lookup nowhere.offset = none) : ¬h.Live nowhere := by
  rintro ⟨n, hsize⟩
  cases hn.symm.trans hsize

/-- The barrier looks at what is stored in an old vector, and the slot is written before it does. -/
theorem vector_stores_aged :
    Reachable aged ∧ ⟨object 16, 1⟩ ∈ aged.builders ∧ ¬aged.heap.Live nowhere ∧ aged.heap.Watched (object 16) ∧
      Stored aged.heap (object 16) 0 nowhere
        ((Operation.builderSet ⟨object 16, 1⟩ 0 nowhere).perform.runOn aged.heap) := by
  have hbuilder : ⟨object 16, 1⟩ ∈ aged.builders := by decide +kernel
  have hbits : aged.heap.gcBits (object 16) = .ok ⟨false, true, false, false⟩ := by decide +kernel
  refine ⟨reachable_aged, hbuilder, nowhere_dead (by decide +kernel), ⟨⟨_, hbits, rfl⟩, ?_⟩, ?_⟩
  · rintro ⟨g, hg, hremembered⟩
    cases hbits.symm.trans hg
    cases hremembered
  · exact reachable_aged.vector_stores.2.1 _ hbuilder 0 nowhere Nat.one_pos

/-- What names no object can be stored in a vector and read again. Where it is refused, it was stored before. -/
theorem dead_reference_stored :
    (Reachable begun ∧ ⟨object 16, 1⟩ ∈ begun.builders ∧ ¬begun.heap.Live nowhere ∧
      ((Operation.builderSet ⟨object 16, 1⟩ 0 nowhere).perform.runOn begun.heap).1 = .ok () ∧
      SimpleVector.get (begun.next (.builderSet ⟨object 16, 1⟩ 0 nowhere)).heap (object 16) 0 = .ok nowhere) ∧
    Reachable aged ∧ ⟨object 16, 1⟩ ∈ aged.builders ∧
      ((Operation.builderSet ⟨object 16, 1⟩ 0 nowhere).perform.runOn aged.heap).1 =
        .error (.invalidTag 4096 .notAnObject) ∧
      SimpleVector.get aged.heap (object 16) 0 = .error (.undefined "simple vector element 0") ∧
      SimpleVector.get (aged.next (.builderSet ⟨object 16, 1⟩ 0 nowhere)).heap (object 16) 0 = .ok nowhere := by
  refine ⟨⟨reachable_begun, ?_, nowhere_dead ?_, ?_, ?_⟩, reachable_aged, ?_, ?_, ?_, ?_⟩ <;> decide +kernel

end Session

end TypedHeap
