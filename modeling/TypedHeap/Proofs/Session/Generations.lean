import TypedHeap.Proofs.Heap.Generations
import TypedHeap.Proofs.Session.Run

/-!
# The write barrier misses nothing

Between two collections a heap stays covered: an old object that refers to a young one is remembered,
whatever a caller does, and whether it works or fails. Only the collector changes flags of its own accord.

* `Reachable.blank`: an array without a buffer has no owner, in every heap.
* `SimpleVector.HoldsObjects`: the slots of simple vectors name objects. They declare no type, so a
  builder can put anything in them.

Main result: `Session.Reachable.covered_next`.
-/

namespace TypedHeap

open Heap SimpleVector

/-- What can be read from the slots of simple vectors are objects. -/
def SimpleVector.HoldsObjects (h : Heap) : Prop := ∀ v i x, SimpleVector.get h v i = .ok x → h.Live x

namespace Session

variable {α : Type} {s t : Session}

theorem Reachable.blank (hs : Reachable s) : s.heap.Blank := hs.invariant blank_fresh Trail.blank

theorem Reachable.anchored (hs : Reachable s) (hvectors : SimpleVector.HoldsObjects s.heap) :
    s.heap.Anchored := by
  intro p x _ href
  have hsound := hs.sound.heap
  refine hsound.refers_live hs.blank (fun v i x ht hi hx => ?_) href
  exact hvectors v i x ((get_eq_ok hsound).2 ⟨ht, hi, hx⟩)

/-- A vector under construction takes whatever its builder is given, but that makes no new object. -/
theorem covered_builder {b : Builder} {o : Operation α} (hs : s.heap.Sound) (hb : b.Holds s.heap)
    (ho : o.builder? = some b) (hc : s.heap.Covered) : (s.next o).heap.Covered := by
  have hsame {h : Heap} (path : Path (fun _ _ => True) s.heap h) (hobjects : h.objects = s.heap.objects) :
      h.Covered := by
    exact path.covered_of_live hs (fun v hv => (live_congr hobjects).1 hv) hc
  rw [next_heap]
  cases o with
  | builderSet c i x =>
    cases ho
    obtain ⟨hpath, -, hobjects⟩ := b.after_set (S := fun _ _ => True) hs hb (fun _ => trivial) i x
    exact hsame hpath hobjects
  | builderTruncate c length =>
    cases ho
    change ((b.truncate length).runOn s.heap).2.Covered
    rcases Nat.lt_or_ge b.length length with hlt | hle
    · rw [Builder.runOn_truncate_error hlt]
      exact hc
    · obtain ⟨h, hrun, hpath, -, hobjects⟩ :=
        b.runOn_truncate (S := fun _ _ => True) hs hb (fun _ => trivial) hle
      rw [hrun]
      exact hsame hpath hobjects
  | publish c => exact hc
  | _ => cases ho

/-- In a heap whose simple vectors hold objects, an operation leaves no reference from an old object to a
young one unnoticed, unless it is the collector that changes flags. -/
theorem Reachable.covered_next (hs : Reachable s) (o : Operation α) (allowed : s.Allows o)
    (ho : o.isMutator = true) (hvectors : SimpleVector.HoldsObjects s.heap) (hc : s.heap.Covered) :
    (s.next o).heap.Covered := by
  have hsound := hs.sound
  have hbuilders (b : Builder) (hb : o.builder? = some b) : b.Holds s.heap :=
    hsound.builders b (allowed b hb)
  cases hb : o.builder? with
  | some b => exact covered_builder hsound.heap (hbuilders b hb) hb hc
  | none =>
    have hm := o.mutator_meets hsound.heap hbuilders ho
    rw [next_heap]
    refine hm.kept.covered hsound.heap (fun p hp => ⟨0, ?_⟩) (hs.anchored hvectors) hc
    -- Simple vectors without a builder are final.
    rintro (haddr | hdead)
    · rcases Operation.changeable_of_addresses hsound.heap haddr with hopen | ⟨b, hb', -⟩
      · exact Operation.not_changeable_of_vector hsound.heap hp hopen
      · rw [hb] at hb'
        cases hb'
    · exact hdead (live_of_typeOf hp)

/-- A builder with an old vector of one slot, and a young string. -/
def aged : Session :=
  start ⟨64, 4096⟩ .off |>.next (.build 1) |>.next (.setGcBits (object 16) ⟨false, true, false, false⟩)
    |>.next (.newString "text")

/-- The string goes into the vector. -/
def insertText : Operation Unit := .builderSet ⟨object 16, 1⟩ 0 (object 48)

theorem reachable_aged : Reachable aged :=
  .next (.next (.next (reachable_start _ _) _ (allows_of_none rfl)) _ (allows_of_none rfl)) _ (allows_of_none rfl)

theorem aged_live {v : Value} (hv : aged.heap.Live v) : v = object 16 ∨ v = object 48 := by
  obtain ⟨n, hn⟩ := hv
  have hobjects : aged.heap.objects = [(48, 12), (16, 16)] := by decide +kernel
  have hmem := mem_of_size? hn
  rw [hobjects] at hmem
  rcases List.mem_pair.1 hmem with h | h
  · exact .inr (Value.ext (Prod.mk.inj h).1)
  · exact .inl (Value.ext (Prod.mk.inj h).1)

theorem aged_refers {x : Value} : ¬aged.heap.Refers (object 16) x := by
  have htype : aged.heap.typeOf (object 16) = .ok Builtin.simpleVector := by decide +kernel
  have hlength : aged.heap.word (object 16) 0 = 1 := by decide +kernel
  have hempty : aged.heap.slot (object 16) (refSize * (0 + 1)) = none := by decide +kernel
  rintro ⟨k, hslot, hx⟩
  obtain ⟨i, hi, rfl⟩ := hslot.item_of reachable_aged.sound.heap htype
  rw [hlength, Nat.lt_one_iff] at hi
  rw [hi, hempty] at hx
  cases hx

theorem aged_holdsObjects : HoldsObjects aged.heap := by
  intro v i x hx
  obtain ⟨ht, hi, hx⟩ := (get_eq_ok reachable_aged.sound.heap).1 hx
  rcases aged_live (live_of_typeOf ht) with rfl | rfl
  · exact absurd ⟨_, .item ht hi, hx⟩ aged_refers
  · have hstring : aged.heap.typeOf (object 48) = .ok Builtin.string := by decide +kernel
    rw [hstring] at ht
    cases ht

theorem aged_covered : aged.heap.Covered := by
  intro p x hp href
  rcases aged_live ((old_iff reachable_aged.sound.heap.arena).1 hp).1 with rfl | rfl
  · exact absurd href aged_refers
  · have hyoung : aged.heap.Young (object 48) := ⟨⟨false, false, false, false⟩, by decide +kernel, rfl⟩
    exact absurd hp hyoung.not_old

/-- The store makes an old object refer to a young one, and is noticed. -/
theorem covered_aged :
    Reachable aged ∧ aged.Allows insertText ∧ insertText.isMutator = true ∧ HoldsObjects aged.heap ∧
      aged.heap.Covered ∧ (aged.next insertText).heap.Covered ∧
      (aged.next insertText).heap.Old (object 16) ∧ (aged.next insertText).heap.Young (object 48) ∧
      (aged.next insertText).heap.Refers (object 16) (object 48) := by
  have allowed : aged.Allows insertText := by
    intro b hb
    cases hb
    decide +kernel
  have hc := reachable_aged.covered_next insertText allowed rfl aged_holdsObjects aged_covered
  have hrefers : (aged.next insertText).heap.Refers (object 16) (object 48) :=
    ⟨8, .item (i := 0) (by decide +kernel) (by decide +kernel), by decide +kernel⟩
  exact ⟨reachable_aged, allowed, rfl, aged_holdsObjects, aged_covered, hc,
    ⟨⟨false, true, false, true⟩, by decide +kernel, rfl⟩, ⟨⟨false, false, false, false⟩, by decide +kernel, rfl⟩,
    hrefers⟩

end Session

end TypedHeap
