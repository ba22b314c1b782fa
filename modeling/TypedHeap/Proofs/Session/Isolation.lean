import TypedHeap.Proofs.Session.Run

/-!
# Operations keep to what they are about

All objects share one memory, and writes go where offsets say. Still no operation changes an object that
it is not about, and objects that nobody may change keep their payloads for good. Questions that are no
operations leave the heap as it is in any case.

* `Heap.Isolated S`: objects keep their types, their sizes, and their bytes apart from those in `S`.
* `Session.Final`: objects whose payloads are final: strings, boxes, simple vectors that are handed out,
  and objects with fields that cannot be changed.

Main result: `Session.Reachable.isolated`.
-/

namespace TypedHeap

open TypedHeap.Action (Meets)
open Heap SimpleVector

/-! ## Frames -/

namespace Heap

variable {h h' : Heap} {v : Value} {n : Nat} {S : Value → Nat → Prop}

/-- Every object keeps its type, its size, and the bytes of its payload apart from those in `S`. -/
structure Isolated (S : Value → Nat → Prop) (h h' : Heap) : Prop where
  size : ∀ v n, h.objectSize v = .ok n → h'.objectSize v = .ok n
  type : ∀ v n, h.objectSize v = .ok n → h'.typeOf v = h.typeOf v
  payload : ∀ v n, h.objectSize v = .ok n → ∃ bs bs', h.payload v = .ok bs ∧ h'.payload v = .ok bs' ∧
    bs.length = n ∧ bs'.length = n ∧ ∀ k, bs'[k]? ≠ bs[k]? → S v k

theorem Keeps.isolates (hk : Keeps S h h') (hs : h.Sound) (hs' : h'.Sound) : Isolated S h h' where
  size v n hn := objectSize_eq_ok.2 (hk.size? (objectSize_eq_ok.1 hn))
  type v n hn := by
    obtain ⟨t, ht⟩ := hs.exists_typeOf ⟨n, objectSize_eq_ok.1 hn⟩
    rw [ht]
    exact hk.typeOf ht
  payload v n hn := by
    have hn := objectSize_eq_ok.1 hn
    refine ⟨_, _, hs.payload_eq hn, hs'.payload_eq (hk.size? hn), Memory.length_window _ _ _,
      Memory.length_window _ _ _, fun k hne => ?_⟩
    by_contra hS
    refine hne ?_
    by_cases hlt : k < n
    · have hbyte := hk.bytes hn hlt hS
      rw [List.getElem?_eq_getElem (by rw [Memory.length_window]; exact hlt),
        List.getElem?_eq_getElem (by rw [Memory.length_window]; exact hlt), Memory.getElem_window,
        Memory.getElem_window]
      exact congrArg some hbyte
    · rw [List.getElem?_eq_none (by rw [Memory.length_window]; omega),
        List.getElem?_eq_none (by rw [Memory.length_window]; omega)]

theorem Isolated.mono {S' : Value → Nat → Prop} (hi : Isolated S h h')
    (hS : ∀ v k, h.Live v → S v k → S' v k) : Isolated S' h h' where
  size := hi.size
  type := hi.type
  payload v n hn := by
    obtain ⟨bs, bs', hbs, hbs', hlen, hlen', hsame⟩ := hi.payload v n hn
    exact ⟨bs, bs', hbs, hbs', hlen, hlen', fun k hne =>
      hS v k ⟨n, objectSize_eq_ok.1 hn⟩ (hsame k hne)⟩

end Heap

namespace Session

variable {α : Type} {s t : Session} {v : Value}

/-! ## One operation -/

theorem Sound.isolated_next (hs : s.Sound) (o : Operation α) (allowed : s.Allows o) :
    Isolated (o.Addresses s.heap) s.heap (s.next o).heap := by
  have hnext := (next_sound hs o allowed).heap
  refine ((hs.keeps_next o allowed).isolates hs.heap hnext).mono fun v k hv hor => ?_
  exact hor.resolve_right fun hdead => hdead hv

/-! ## Any number of operations -/

/-- Objects whose payloads nobody may change: strings, boxes, simple vectors without a builder, and
objects with immutable fields. -/
def Final (s : Session) (v : Value) : Prop :=
  ∃ d, s.heap.descriptor v = .ok d ∧
    match d.kind with
    | .string | .primitive .. => True
    | .simpleVector => ∀ b ∈ s.builders, b.value ≠ v
    | .struct | .tuple => d.isMutable = false
    | .array | .buffer | .abstract | .union => False

theorem Final.not_changeable (hs : s.Sound) (hf : s.Final v) : ¬Operation.Changeable s.heap v := by
  obtain ⟨d, hd, hfinal⟩ := hf
  rintro ⟨d', hd', hopen⟩
  rw [hd] at hd'
  cases hd'
  obtain ⟨t, -, hd⟩ := descriptor_eq_ok.1 hd
  have htypes := hs.heap.registry.types
  rcases hopen with hkind | hkind | hmutable
  · rw [hkind] at hfinal
    exact hfinal
  · rw [hkind] at hfinal
    exact hfinal
  · have hkind : d.kind = .struct :=
      Family.struct_of_isMutable (htypes.family (htypes.family_eq hd)).2 hmutable
    rw [hkind] at hfinal
    exact Bool.noConfusion (hmutable.symm.trans hfinal)

theorem Final.ne_builder (hs : s.Sound) (hf : s.Final v) {b : Builder} (hb : b ∈ s.builders) :
    b.value ≠ v := by
  obtain ⟨d, hd, hfinal⟩ := hf
  rintro rfl
  have hvector := descriptor_eq_ok.2 ⟨_, (hs.builders b hb).type, hs.heap.descriptor_simpleVector⟩
  rw [hvector] at hd
  cases hd
  exact hfinal b hb rfl

theorem Final.not_addressed (hs : s.Sound) {o : Operation α} (allowed : s.Allows o) (hf : s.Final v)
    (k : Nat) : ¬o.Addresses s.heap v k := by
  intro haddr
  rcases Operation.changeable_of_addresses hs.heap haddr with hopen | ⟨b, hb, hv⟩
  · exact hf.not_changeable hs hopen
  · exact hf.ne_builder hs (allowed b hb) hv.symm

/-- Builders after an operation work on vectors that had a builder before, or on new ones. -/
theorem builders_next (hs : s.Sound) (o : Operation α) (allowed : s.Allows o) {b : Builder}
    (hb : b ∈ (s.next o).builders) : (∃ c ∈ s.builders, c.value = b.value) ∨ ¬s.heap.Live b.value := by
  have hgives := (hs.meets o allowed).answer
  rcases hrun : o.perform.runOn s.heap with ⟨r, h⟩
  rw [hrun] at hgives
  cases r with
  | error e =>
    rw [next_error hrun] at hb
    exact .inl ⟨b, hb, rfl⟩
  | ok a =>
    rw [next_ok hrun] at hb
    have hgives := hgives a rfl
    cases o with
    | build length =>
      rcases List.mem_cons.1 hb with rfl | hb
      · exact .inr hgives.1
      · exact .inl ⟨b, hb, rfl⟩
    | builderTruncate c length =>
      rcases List.mem_cons.1 hb with rfl | hb
      · exact .inl ⟨c, allowed c rfl, by rw [hgives.1]⟩
      · exact .inl ⟨b, List.mem_of_mem_erase hb, rfl⟩
    | publish c => exact .inl ⟨b, List.mem_of_mem_erase hb, rfl⟩
    | _ => exact .inl ⟨b, hb, rfl⟩

theorem Final.next (hs : s.Sound) (o : Operation α) (allowed : s.Allows o) (hf : s.Final v) :
    (s.next o).Final v := by
  have hne {b : Builder} (hb : b ∈ s.builders) := hf.ne_builder hs hb
  obtain ⟨d, hd, hfinal⟩ := hf
  obtain ⟨t, ht, hdesc⟩ := descriptor_eq_ok.1 hd
  have he := (hs.keeps_next o allowed).toExtends
  refine ⟨d, descriptor_eq_ok.2 ⟨t, he.typeOf ht, he.descriptor hdesc⟩, ?_⟩
  cases hkind : d.kind with
  | simpleVector =>
    intro b hb heq
    rcases builders_next hs o allowed hb with ⟨c, hc, hv⟩ | hdead
    · exact hne hc (hv.trans heq)
    · rw [heq] at hdead
      exact hdead (live_of_typeOf ht)
  | _ =>
    rw [hkind] at hfinal
    exact hfinal

theorem Leads.final (h : Leads s t) (hs : s.Sound) (hf : s.Final v) : t.Final v := by
  induction h with
  | refl => exact hf
  | next before o allowed ih => exact ih.next (before.sound hs) o allowed

/-- By induction on the run: what is final stays final, and no operation on the way addresses it. -/
theorem Leads.keeps (h : Leads s t) (hs : s.Sound) : Keeps (fun v _ => ¬s.Final v) s.heap t.heap := by
  induction h with
  | refl => exact .refl _ _
  | next before o allowed ih =>
    have hsound := before.sound hs
    have hstep := hsound.keeps_next o allowed
    refine ⟨ih.toExtends.trans hstep.toExtends, fun hn hk hopen => ?_⟩
    have hfinal := before.final hs (Classical.not_not.1 hopen)
    refine (hstep.bytes (ih.size? hn) hk fun hor => ?_).trans (ih.bytes hn hk hopen)
    rcases hor with haddr | hdead
    · exact hfinal.not_addressed hsound allowed _ haddr
    · exact hdead ⟨_, ih.size? hn⟩

/-! ## The collector -/

theorem typeOf_next_of_collector (hs : s.Sound) (o : Operation α) (ho : o.isForCollector = true) :
    (s.next o).heap.typeOf v = s.heap.typeOf v := by
  rw [next_heap]
  exact (o.marks_meets (S := fun _ _ => True) hs.heap ho).kept.typeOf_eq hs.heap v

/-- An operation changes nothing of what was there but what it addresses; types and sizes never change,
nor do payloads that are final; and the collector changes no type, not even of a value that refers to
no object. -/
theorem Reachable.isolated (hs : Reachable s) :
    (∀ {α} (o : Operation α), s.Allows o →
      Isolated (o.Addresses s.heap) s.heap (s.next o).heap) ∧
    (∀ t, Leads s t → Isolated (fun v _ => ¬s.Final v) s.heap t.heap) ∧
    ∀ {α} (o : Operation α), o.isForCollector = true → ∀ v,
      (s.next o).heap.typeOf v = s.heap.typeOf v := by
  have hsound := hs.sound
  refine ⟨fun o allowed => hsound.isolated_next o allowed, fun t h => ?_, fun o ho v => ?_⟩
  · exact (h.keeps hsound).isolates hsound.heap (h.sound hsound).heap
  · exact typeOf_next_of_collector hsound o ho

/-- A string, and a vector without elements in it yet. -/
def labelled : Session :=
  start ⟨64, 4096⟩ .off |>.next (.newString "text") |>.next (.newVector Builtin.any 1)

/-- The string goes into the vector. -/
def storeText : Operation Unit :=
  .elementWrite (object 80) 0 (object 16)

theorem isolated_labelled :
    Reachable labelled ∧ labelled.Allows storeText ∧
      Isolated (storeText.Addresses labelled.heap) labelled.heap (labelled.next storeText).heap ∧
      (labelled.next storeText).heap.payload (object 48) ≠
        labelled.heap.payload (object 48) ∧
      labelled.Final (object 16) ∧
      Isolated (fun v _ => ¬labelled.Final v) labelled.heap (labelled.next storeText).heap ∧
      (labelled.next (.setGcBits (object 16) ⟨true, true, false, false⟩)).heap.typeOf (object 16) =
        labelled.heap.typeOf (object 16) := by
  have hs : Reachable labelled := ((reachable_start _ _).next _ (by nofun)).next _ (by nofun)
  have allowed : labelled.Allows storeText := nofun
  have hstring : labelled.heap.descriptor (object 16) =
      .ok ⟨Builtin.string, Builtin.family "String" .string, []⟩ := by decide +kernel
  obtain ⟨hnext, hruns, hcollector⟩ := hs.isolated
  exact ⟨hs, allowed, hnext _ allowed, by decide +kernel, ⟨_, hstring, trivial⟩,
    hruns _ (.next .refl _ allowed), hcollector _ rfl _⟩

end Session

end TypedHeap
