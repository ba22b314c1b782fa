import TypedHeap.Proofs.Array.Pointers
import TypedHeap.Proofs.Node.Walk
import TypedHeap.Proofs.Session.Isolation
import TypedHeap.Proofs.Session.Lists

/-!
# Pointers to elements along a run

A caller asks where the elements of an array lie, and goes on with other operations. The answer is right until the
first operation that makes the array outgrow its buffer, and wrong from then on: later buffers are never the old one.

* `Operation.Asks`: an operation asks for a number of elements of an array.
* `Operation.Reallocates`: it moves the elements to a new buffer.
* `Session.Moves`: a run, and how many of its operations move the elements of an array.

Main result: `Session.Reachable.pointers_current`.
-/

namespace TypedHeap

open TypedHeap.Action (Ends)
open Heap ArrayObject

variable {h : Heap} {a : Value} {f g : ArrayInfo} {k m n : Nat} {α : Type}

/-! ## What operations do to the buffer of an array -/

namespace Operation

/-- An operation asks for a number of elements of an array, by resizing it or by appending to it. -/
def Asks : Operation α → Heap → Value → Nat → Prop
  | resize b size, _, a, n => b = a ∧ n = size.toNat
  | push b _, h, a, n => b = a ∧ ∃ f, info h a = .ok f ∧ n = f.length + 1
  | pushArgument ts w _, h, a, n => Nodes.ArgumentsOf ts h w a ∧ ∃ f, info h a = .ok f ∧ n = f.length + 1
  | _, _, _, _ => False

/-- An operation asks for more elements than the buffer of an array has room for, and they get a new buffer. -/
def Reallocates (o : Operation α) (h : Heap) (a : Value) : Prop := ∃ n, o.Asks h a n ∧ Outgrows h a n

/-- Words of an array other than its flags are open to change only where a number of elements is asked for. -/
theorem exists_asks (hs : h.Sound) {o : Operation α} (hb : ∀ b, o.builder? = some b → b.Holds h)
    (ha : h.IsArray a f) (hk : k < flagsWord) (haddr : o.Addresses h a k) : ∃ n, o.Asks h a n := by
  have hinfo := hs.info_iff.2 ha
  have hself {c : Value} (hc : ArrayOrBuffer h c a) : c = a := by
    obtain ⟨g, hg, rfl | hbuffer⟩ := hc
    · rfl
    · exact absurd ⟨g, hg, hbuffer⟩ (not_bufferOf hs ha c)
  obtain ⟨e, he⟩ := (edit_of_addresses hs hb ha haddr).resolve_right (Nat.not_le.2 hk)
  cases o with
  | elementWrite c i x => exact absurd haddr (not_bufferOf hs ha c)
  | elementWriteScalar c i s x => exact absurd haddr (not_bufferOf hs ha c)
  | setArgument ts w i x =>
    obtain ⟨args, -, hargs⟩ := haddr
    exact absurd hargs (not_bufferOf hs ha args)
  | resize c size => exact ⟨_, hself haddr, rfl⟩
  | push c x => exact ⟨_, hself haddr, f, hinfo, rfl⟩
  | pushArgument ts w x =>
    obtain ⟨args, hargs, hof⟩ := haddr
    exact ⟨_, hself hof ▸ hargs, f, hinfo, rfl⟩
  | _ => cases he

theorem Asks.unique {o : Operation α} (hm : o.Asks h a m) (hn : o.Asks h a n) : n = m := by
  cases o with
  | resize c size => exact hn.2.trans hm.2.symm
  | push c x =>
    obtain ⟨-, f, hf, rfl⟩ := hm
    obtain ⟨-, g, hg, rfl⟩ := hn
    cases hf.symm.trans hg
    rfl
  | pushArgument ts w x =>
    obtain ⟨-, f, hf, rfl⟩ := hm
    obtain ⟨-, g, hg, rfl⟩ := hn
    cases hf.symm.trans hg
    rfl
  | _ => exact hm.elim

theorem reallocates_iff {o : Operation α} (hasks : o.Asks h a n) : o.Reallocates h a ↔ Outgrows h a n := by
  constructor
  · rintro ⟨m, hm, hgrows⟩
    rwa [hm.unique hasks]
  · intro hgrows
    exact ⟨n, hasks, hgrows⟩

/-- Who asks for a number of elements gets a new buffer for them only if the old one has no room. -/
theorem Asks.settles {o : Operation α} (hasks : o.Asks h a n) (hs : h.Sound) (ha : h.IsArray a f) :
    ∃ g, Settles (Outgrows h a n) h a f (o.perform.runOn h).2 g := by
  have hinfo := hs.info_iff.2 ha
  cases o with
  | resize c size =>
    obtain ⟨rfl, rfl⟩ := hasks
    have hle : size.toNat ≤ maxWord := Nat.le_of_lt_succ size.toNat_lt
    refine Ends.state (I := fun h' => ∃ g, Settles (Outgrows h c size.toNat) h c f h' g)
      ((resize_settles hs ha hle).mono (fun _ h' hdone => ?_) fun h' hg => ⟨f, hg⟩)
    obtain ⟨-, -, -, g, -, -, hg⟩ := hdone
    exact ⟨g, hg⟩
  | push c x =>
    obtain ⟨rfl, f', hf', rfl⟩ := hasks
    cases hinfo.symm.trans hf'
    exact push_settles hs ha x
  | pushArgument ts w x =>
    obtain ⟨hargs, f', hf', rfl⟩ := hasks
    cases hinfo.symm.trans hf'
    have hrun : (Operation.pushArgument ts w x).perform.runOn h = (ArrayObject.push a x).runOn h :=
      Action.runOn_bind_ok (Nodes.runOn_argumentVector hs hargs).2
    rw [hrun]
    exact push_settles hs ha x
  | _ => exact hasks.elim

/-- An array has a new buffer after an operation that reallocates it, and the one that it had after any other. -/
theorem settles (hs : h.Sound) (o : Operation α) (hb : ∀ b, o.builder? = some b → b.Holds h)
    (ha : h.IsArray a f) : ∃ g, Settles (o.Reallocates h a) h a f (o.perform.runOn h).2 g := by
  by_cases hasks : ∃ n, o.Asks h a n
  · obtain ⟨n, hasks⟩ := hasks
    obtain ⟨g, hg⟩ := hasks.settles hs ha
    exact ⟨g, by rwa [reallocates_iff hasks]⟩
  · have hkept := (o.perform_meets hs hb).kept
    obtain ⟨g, hg⟩ := hkept.isArray hs ha
    have hslot : (o.perform.runOn h).2.slot a bufferWord = h.slot a bufferWord := by
      refine (hkept.keeps hs).slot_eq (hs.size_array (hs.arrays ha).type) ?_ fun j _ hj hopen => ?_
      · simp only [bufferWord, ownerOffset, refSize]
        omega
      · rcases hopen with haddr | hdead
        · exact hasks (exists_asks hs hb ha (Nat.lt_of_lt_of_le hj (by decide)) haddr)
        · exact hdead ha.live
    rw [hg.buffer, ha.buffer, Option.some.injEq] at hslot
    refine ⟨g, .of_buffer hg hslot ?_⟩
    rintro ⟨n, hn, -⟩
    exact hasks ⟨n, hn⟩

end Operation

namespace Session

variable {s t u : Session}

/-! ## Along a run -/

/-- Any number of operations, `n` of which move the elements of an array to a new buffer. -/
inductive Moves (a : Value) (s : Session) : Nat → Session → Prop
  | refl : Moves a s 0 s
  | stay {α : Type} {t : Session} {n : Nat} (before : Moves a s n t) (o : Operation α) (allowed : t.Allows o)
      (kept : ¬o.Reallocates t.heap a) : Moves a s n (t.next o)
  | move {α : Type} {t : Session} {n : Nat} (before : Moves a s n t) (o : Operation α) (allowed : t.Allows o)
      (moved : o.Reallocates t.heap a) : Moves a s (n + 1) (t.next o)

theorem Moves.leads (hm : Moves a s n t) : Leads s t := by
  induction hm with
  | refl => exact .refl
  | stay _ o allowed _ ih => exact ih.next o allowed
  | move _ o allowed _ ih => exact ih.next o allowed

theorem Moves.trans (hm : Moves a s n t) (hm' : Moves a t m u) : Moves a s (n + m) u := by
  induction hm' with
  | refl => exact hm
  | stay _ o allowed kept ih => exact ih.stay o allowed kept
  | move _ o allowed moved ih => exact ih.move o allowed moved

/-- Every run moves the elements of an array so and so often. -/
theorem Leads.moves (a : Value) (hl : Leads s t) : ∃ n, Moves a s n t := by
  induction hl with
  | refl => exact ⟨0, .refl⟩
  | @next α t _ o allowed ih =>
    obtain ⟨n, hn⟩ := ih
    by_cases hmoved : o.Reallocates t.heap a
    · exact ⟨n + 1, hn.move o allowed hmoved⟩
    · exact ⟨n, hn.stay o allowed hmoved⟩

/-- By induction on the run. A buffer that the array gets on the way was no object when it got it, so it was none at
the beginning, when the buffer of the array was one. -/
theorem Moves.settles (hm : Moves a s n t) (hs : s.Sound) (ha : s.heap.IsArray a f) :
    ∃ g, Settles (n ≠ 0) s.heap a f t.heap g := by
  induction hm with
  | refl => exact ⟨f, .of_buffer ha rfl fun hne => hne rfl⟩
  | stay before o allowed kept ih =>
    obtain ⟨g, hg⟩ := ih
    have hsound := before.leads.sound hs
    obtain ⟨k, hk⟩ := o.settles hsound.heap (fun b hb => hsound.builders b (allowed b hb)) hg.array
    rw [← next_heap] at hk
    exact ⟨k, hg.trans hk.array (hk.same kept)⟩
  | move before o allowed moved ih =>
    obtain ⟨g, hg⟩ := ih
    have hsound := before.leads.sound hs
    obtain ⟨k, hk⟩ := o.settles hsound.heap (fun b hb => hsound.builders b (allowed b hb)) hg.array
    rw [← next_heap] at hk
    refine ⟨k, hk.array, fun _ hlive => hk.fresh moved ?_, fun hzero => absurd (Nat.succ_ne_zero _) hzero⟩
    exact (before.leads.keeps hs).toExtends.live hlive

/-- A pointer that was taken at the beginning is right at the end if and only if the array never moved. -/
theorem Moves.isCurrent_eq (hm : Moves a s n t) (hs : s.Sound) (ha : s.heap.IsArray a f) (off : Nat) :
    isCurrent t.heap a ⟨f.buffer, off⟩ = .ok (decide (n = 0)) := by
  obtain ⟨g, hg⟩ := hm.settles hs ha
  rw [ArrayObject.isCurrent_eq (hm.leads.sound hs).heap hg.array]
  have hiff : g.buffer = f.buffer ↔ n = 0 := by
    constructor
    · intro hbuffer
      by_contra hne
      have hlive := live_of_typeOf (hs.heap.arrays ha).body.buffer
      rw [← hbuffer] at hlive
      exact hg.fresh hne hlive
    · intro hzero
      exact hg.same (not_not_intro hzero)
  simp only [hiff]

/-- In every session that operations lead to, every array that was asked for has a pointer to its first element. And
for every pointer `p` that an array gives:

* from then on it is current as long as no operation has moved the elements of the array to a new buffer, and no
  longer. An operation has done so if it resized or appended to the array beyond the room in its buffer, even if the
  value to append was refused;
* once it is not current, it never is again;
* while it is current, the element at an index is what is found so many slots behind it: the reference that stands
  there, or that many bytes of the arena. -/
theorem Reachable.pointers_current (hs : Reachable s) :
    (∀ a ∈ s.arrays, ∃ p, data s.heap a = .ok p) ∧
    ∀ a p, data s.heap a = .ok p →
      (∀ t, Leads s t → ∃ n, Moves a s n t) ∧
      (∀ n t, Moves a s n t → isCurrent t.heap a p = .ok (decide (n = 0))) ∧
      (∀ t u, Leads s t → isCurrent t.heap a p = .ok false → Leads t u → isCurrent u.heap a p = .ok false) ∧
      ∀ t, Leads s t → isCurrent t.heap a p = .ok true →
        ∃ f, info t.heap a = .ok f ∧ ∀ i, i < f.length →
          ∃ d, (Operation.elementRead a i).perform.runOn t.heap = (defined i d, t.heap) ∧
            Found t.heap a (p.offset + i * f.flags.slotSize) d := by
  have hsound := hs.sound
  refine ⟨fun a ha => ?_, fun a p hp => ?_⟩
  · obtain ⟨f, hf⟩ := hsound.arrays a ha
    exact ⟨_, data_of_isArray hsound.heap hf⟩
  obtain ⟨f, hf, -⟩ := bind_eq_ok.1 hp
  have ha := hsound.heap.info_iff.1 hf
  rw [data_of_isArray hsound.heap ha] at hp
  cases hp
  have hcurrent {n : Nat} {t : Session} (hm : Moves a s n t) :
      isCurrent t.heap a ⟨f.buffer, f.buffer.offset + refSize⟩ = .ok (decide (n = 0)) :=
    hm.isCurrent_eq hsound ha _
  refine ⟨fun t hl => hl.moves a, fun n t hm => hcurrent hm, fun t u hl hstale hl' => ?_, fun t hl hlive => ?_⟩
  · obtain ⟨n, hm⟩ := hl.moves a
    obtain ⟨m, hm'⟩ := hl'.moves a
    rw [hcurrent hm, Except.ok.injEq, decide_eq_false_iff_not] at hstale
    rw [hcurrent (hm.trans hm'), Except.ok.injEq, decide_eq_false_iff_not]
    omega
  · have hsound' := (hs.leads hl).sound
    obtain ⟨n, hm⟩ := hl.moves a
    obtain ⟨g, hg⟩ := hm.settles hsound ha
    have hinfo := hsound'.heap.info_iff.2 hg.array
    have hbuffer : g.buffer = f.buffer := by
      rw [ArrayObject.isCurrent_eq hsound'.heap hg.array] at hlive
      exact of_decide_eq_true (Except.ok.inj hlive)
    refine ⟨g, hinfo, fun i hi => ?_⟩
    obtain ⟨d, hd⟩ := exists_shows (hsound'.heap.arrays hg.array).body hi
    refine ⟨d, runOn_get hsound'.heap hg.array hi hd, ?_⟩
    have hfound := found_of_shows hsound'.heap hg.array hi hd
    rwa [hbuffer] at hfound

/-- The third number moves the vector, and the fourth one does not: the pointer from the beginning is stale after the
third, the one from then is current after the fourth. -/
theorem pointers_current_numbers :
    Reachable numbers ∧ data numbers.heap (object 64) = .ok ⟨object 32, 40⟩ ∧
      Moves (object 64) numbers 1 (numbers.next appendNumber) ∧
      isCurrent (numbers.next appendNumber).heap (object 64) ⟨object 32, 40⟩ = .ok false ∧
      data (numbers.next appendNumber).heap (object 64) = .ok ⟨object 128, 136⟩ ∧
      Moves (object 64) (numbers.next appendNumber) 0 ((numbers.next appendNumber).next appendNumber) ∧
      isCurrent ((numbers.next appendNumber).next appendNumber).heap (object 64) ⟨object 128, 136⟩ = .ok true := by
  have hs : Reachable numbers := ((reachable_start _ _).next _ (by nofun)).next _ (by nofun)
  have hs' : Reachable (numbers.next appendNumber) := hs.next _ (allows_of_none rfl)
  have hinfo : info numbers.heap (object 64) = .ok (numbersInfo 2 2 32) := by decide +kernel
  have hinfo' : info (numbers.next appendNumber).heap (object 64) = .ok (numbersInfo 3 4 128) := by decide +kernel
  have hdata := data_of_isArray hs.sound.heap (hs.sound.heap.info_iff.1 hinfo)
  have hdata' := data_of_isArray hs'.sound.heap (hs'.sound.heap.info_iff.1 hinfo')
  have hmoved : appendNumber.Reallocates numbers.heap (object 64) :=
    ⟨3, ⟨rfl, _, hinfo, rfl⟩, by decide, _, hinfo, by decide, by decide +kernel⟩
  have hkept : ¬appendNumber.Reallocates (numbers.next appendNumber).heap (object 64) := by
    rintro ⟨n, ⟨-, f, hf, rfl⟩, -, g, hg, hfull, -⟩
    cases hinfo'.symm.trans hf
    cases hinfo'.symm.trans hg
    exact absurd hfull (by decide)
  have hm : Moves (object 64) numbers 1 (numbers.next appendNumber) := .move .refl _ (allows_of_none rfl) hmoved
  have hm' : Moves (object 64) (numbers.next appendNumber) 0 ((numbers.next appendNumber).next appendNumber) :=
    .stay .refl _ (allows_of_none rfl) hkept
  exact ⟨hs, hdata, hm, (hs.pointers_current.2 _ _ hdata).2.1 _ _ hm, hdata', hm',
    (hs'.pointers_current.2 _ _ hdata').2.1 _ _ hm'⟩

end Session

end TypedHeap
