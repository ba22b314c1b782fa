import TypedHeap.Proofs.Array.Vector
import TypedHeap.Proofs.Session.Run

/-!
# Vectors are lists

Many objects share one memory, elements move when a vector outgrows its buffer, and buffers have room
behind the elements that other elements have left behind. None of this is ever seen: through all
operations of a session a vector is a list, which changes only by operations that are about the vector,
and by these as lists change.

* `Operation.edit?`: the vector that an operation changes, and how.
* `Operation.Reshapes`: the operation that ends an array's being a vector.
* `Session.Turns`, `Session.Evolves`: the list of a vector after an operation, and after a run.

Main result: `Session.Reachable.vectors_are_lists`.
-/

namespace TypedHeap

open TypedHeap.Action (Ends)
open Heap ArrayObject

variable {h h' : Heap} {a v x : Value} {f : ArrayInfo} {elem : TypeRef} {k : Nat} {e : Edit}
  {xs ys : List (Option Datum)} {α : Type}

/-! ## What operations do to vectors -/

namespace Operation

/-- The vector that an operation changes, and how. -/
def edit? : Operation α → Heap → Option (Value × Edit)
  | elementWrite a i x, _ => some (a, .set i x)
  | elementWriteScalar a i s c, _ => some (a, .setScalar i s c)
  | resize a n, _ => some (a, .resize n)
  | push a x, _ => some (a, .push x)
  | setArgument ts e i x, h => ((Nodes.argumentVector ts e).runOn h).1.toOption.map (·, .set i x)
  | pushArgument ts e x, h => ((Nodes.argumentVector ts e).runOn h).1.toOption.map (·, .push x)
  | _, _ => none

/-- An array gets another array over its buffer, so that it is no vector any more. -/
def Reshapes : Operation α → Value → Prop
  | reshape b _, a => b = a
  | _, _ => False

/-- What an operation is about: a simple vector under construction, an object with fields, an array that
it edits, or an array that it marks as shared. -/
theorem addresses_cases (hs : h.Sound) {o : Operation α} (hb : ∀ b, o.builder? = some b → b.Holds h)
    (ha : o.Addresses h v k) :
    (∃ d, h.descriptor v = .ok d ∧ (d.kind = .simpleVector ∨ d.kind = .struct)) ∨
    (∃ b g e, o.edit? h = some (b, e) ∧ h.IsArray b g ∧ (v = b ∨ v = g.buffer)) ∨
    o.Reshapes v ∧ (∃ g, h.IsArray v g) ∧ flagsWord ≤ k ∧ k < flagsWord + refSize := by
  have hmutable {w : Value} (hm : Record.Mutable h w) :
      ∃ d, h.descriptor w = .ok d ∧ (d.kind = .simpleVector ∨ d.kind = .struct) := by
    obtain ⟨t, ht, hm⟩ := hm
    obtain ⟨d, hd, hm⟩ := bind_eq_ok.1 hm
    have hfamily := hs.registry.types.family (hs.registry.types.family_eq hd)
    exact ⟨d, descriptor_eq_ok.2 ⟨t, ht, hd⟩, .inr (Family.struct_of_isMutable hfamily.2 (pure_eq_ok.1 hm))⟩
  have hbuilder {b : SimpleVector.Builder} (hb : b.Holds h) :
      ∃ d, h.descriptor b.value = .ok d ∧ (d.kind = .simpleVector ∨ d.kind = .struct) :=
    ⟨_, descriptor_eq_ok.2 ⟨_, hb.type, hs.descriptor_simpleVector⟩, .inl rfl⟩
  have hedit {b : Value} {e : Edit} (he : o.edit? h = some (b, e)) (hv : ArrayOrBuffer h b v) :
      ∃ b g e, o.edit? h = some (b, e) ∧ h.IsArray b g ∧ (v = b ∨ v = g.buffer) := by
    obtain ⟨g, hg, hv⟩ := hv
    exact ⟨b, g, e, he, hs.info_iff.1 hg, hv⟩
  have hbuffer {b : Value} (hv : BufferOf h b v) : ArrayOrBuffer h b v := by
    obtain ⟨g, hg, hv⟩ := hv
    exact ⟨g, hg, .inr hv⟩
  have hargs {ts : NodeTypes} {w args : Value} (hargs : Nodes.ArgumentsOf ts h w args) (e : Edit) :
      (((Nodes.argumentVector ts w).runOn h).1.toOption.map (·, e)) = some (args, e) := by
    rw [show ((Nodes.argumentVector ts w).runOn h).1 = .ok args from hargs]
    rfl
  cases o with
  | builderSet b i x =>
    obtain rfl : v = b.value := ha
    exact .inl (hbuilder (hb b rfl))
  | builderTruncate b length =>
    obtain rfl : v = b.value := ha
    exact .inl (hbuilder (hb b rfl))
  | elementWrite b i x => exact .inr (.inl (hedit rfl (hbuffer ha)))
  | elementWriteScalar b i s c => exact .inr (.inl (hedit rfl (hbuffer ha)))
  | resize b n => exact .inr (.inl (hedit rfl ha))
  | push b x => exact .inr (.inl (hedit rfl ha))
  | reshape b dims =>
    obtain ⟨rfl, ⟨g, hg⟩, hlo, hhi⟩ := ha
    exact .inr (.inr ⟨rfl, ⟨g, hs.info_iff.1 hg⟩, hlo, hhi⟩)
  | fieldWrite w i x =>
    obtain ⟨rfl, hm⟩ := ha
    exact .inl (hmutable hm)
  | fieldWriteScalar w i s c =>
    obtain ⟨rfl, hm⟩ := ha
    exact .inl (hmutable hm)
  | setHead ts w s =>
    obtain ⟨rfl, hm⟩ := ha
    exact .inl (hmutable hm)
  | setArgument ts w i x =>
    obtain ⟨args, hof, hv⟩ := ha
    exact .inr (.inl (hedit (hargs hof (.set i x)) (hbuffer hv)))
  | pushArgument ts w x =>
    obtain ⟨args, hof, hv⟩ := ha
    exact .inr (.inl (hedit (hargs hof (.push x)) hv))
  | _ => exact ha.elim

/-- An array is the buffer of none. -/
theorem not_bufferOf (hs : h.Sound) (ha : h.IsArray a f) (b : Value) : ¬BufferOf h b a := by
  rintro ⟨g, hg, rfl⟩
  exact hs.ne_buffer (hs.arrays ha).type (hs.arrays (hs.info_iff.1 hg)).body.buffer rfl

/-- An operation that is about an array edits it, or marks it as shared. -/
theorem edit_of_addresses (hs : h.Sound) {o : Operation α} (hb : ∀ b, o.builder? = some b → b.Holds h)
    (ha : h.IsArray a f) (haddr : o.Addresses h a k) : (∃ e, o.edit? h = some (a, e)) ∨ flagsWord ≤ k := by
  rcases addresses_cases hs hb haddr with ⟨d, hd, hkind⟩ | ⟨b, g, e, he, hg, rfl | hbuffer⟩ | ⟨-, -, hlo, -⟩
  · obtain ⟨t, ht, hd⟩ := descriptor_eq_ok.1 hd
    have hne : d.kind ≠ .array := by rcases hkind with hkind | hkind <;> rw [hkind] <;> nofun
    exact absurd rfl (Sound.ne_of_kind (hs.arrays ha).type ht hd hne)
  · exact .inl ⟨e, he⟩
  · exact absurd hbuffer (hs.ne_buffer (hs.arrays ha).type (hs.arrays hg).body.buffer)
  · exact .inr hlo

/-- An operation that edits no vector writes to none of its elements, and to its words only to mark it as
shared. -/
theorem addresses_other (hs : h.Sound) {o : Operation α} (hb : ∀ b, o.builder? = some b → b.Holds h)
    (ha : h.IsArray a f) (hsole : f.flags.isShared = false) (hother : ∀ e, o.edit? h ≠ some (a, e)) :
    (∀ k, o.Addresses h a k → o.Reshapes a ∧ flagsWord ≤ k ∧ k < flagsWord + refSize) ∧
      ∀ k, ¬o.Addresses h f.buffer k := by
  have hbuffer := (hs.arrays ha).body.buffer
  have hne {b : Value} {g : ArrayInfo} (hg : h.IsArray b g) : b ≠ f.buffer :=
    hs.ne_buffer (hs.arrays hg).type hbuffer
  refine ⟨fun k haddr => ?_, fun k haddr => ?_⟩
  · obtain ⟨rank, t, d, n, ht, hd, hkind, -⟩ := ha.type
    have hd := descriptor_eq_ok.2 ⟨t, ht, hd⟩
    rcases addresses_cases hs hb haddr with
      ⟨d', hd', hkind'⟩ | ⟨b, g, e, he, hg, rfl | heq⟩ | ⟨hreshapes, -, hk⟩
    · rw [hd] at hd'
      cases hd'
      rcases hkind' with hkind' | hkind' <;> cases hkind.symm.trans hkind'
    · exact absurd he (hother e)
    · exact absurd heq (hs.ne_buffer (hs.arrays ha).type (hs.arrays hg).body.buffer)
    · exact ⟨hreshapes, hk⟩
  · rcases addresses_cases hs hb haddr with
      ⟨d', hd', hkind'⟩ | ⟨b, g, e, he, hg, heq | heq⟩ | ⟨-, ⟨g, hg⟩, -⟩
    · rw [descriptor_eq_ok.2 ⟨_, hbuffer, hs.descriptor_buffer⟩] at hd'
      cases hd'
      rcases hkind' with hkind' | hkind' <;> cases hkind'
    · exact hne hg heq.symm
    · rcases hs.sharing ha hg heq.symm with rfl | hshares
      · exact hother e he
      · rw [hshares.left] at hsole
        cases hsole
    · exact hne hg rfl

/-- Finding the arguments of an expression changes nothing of them. -/
theorem runOn_argumentVector {ts : NodeTypes} {w : Value} (hs : h.Sound) (hv : IsVector h a elem)
    (hl : Lists h a xs) (hargs : ((Nodes.argumentVector ts w).runOn h).1.toOption = some a) :
    ∃ h₁, (Nodes.argumentVector ts w).runOn h = (.ok a, h₁) ∧ h₁.Sound ∧ IsVector h₁ a elem ∧
      Lists h₁ a xs := by
  have hlearns := (Nodes.argumentVector_meets (h := h) ts w).kept
  rcases hrun : (Nodes.argumentVector ts w).runOn h with ⟨r | b, h₁⟩
  · rw [hrun] at hargs
    cases hargs
  · rw [hrun] at hargs hlearns
    cases hargs
    obtain ⟨f, rfl, hvec⟩ := hv.vectorOf hs hl
    have hvec₁ := hvec.learns hlearns
    exact ⟨h₁, rfl, hvec₁.sound, hvec₁.isVector, hvec₁.lists⟩

/-- An operation that edits a vector does what the edit does. -/
theorem edit_ends (hs : h.Sound) (hv : IsVector h a elem) (hl : Lists h a xs) {o : Operation α}
    (he : o.edit? h = some (a, e)) :
    Ends o.perform h (fun _ h' => IsVector h' a elem ∧ ∃ ys, e.Makes h' elem xs ys ∧ Lists h' a ys)
      fun h' => IsVector h' a elem ∧ Lists h' a xs := by
  cases o with
  | elementWrite b i x =>
    cases he
    exact Edit.ends hs hv hl (.set i x)
  | elementWriteScalar b i s c =>
    cases he
    exact Edit.ends hs hv hl (.setScalar i s c)
  | resize b n =>
    cases he
    exact Edit.ends hs hv hl (.resize n)
  | push b x =>
    cases he
    exact Edit.ends hs hv hl (.push x)
  | setArgument ts w i x =>
    obtain ⟨b, hargs, heq⟩ := Option.map_eq_some_iff.1 he
    cases heq
    obtain ⟨h₁, hrun, hs₁, hv₁, hl₁⟩ := runOn_argumentVector hs hv hl hargs
    have hvector : Ends (Nodes.vectorWith ts w i) h (fun b h' => b = a ∧ h' = h₁)
        fun h' => IsVector h' a elem ∧ Lists h' a xs :=
      Ends.bind_ok hrun (Ends.look_bind ⟨hv₁, hl₁⟩ fun n _ => Ends.guard (fun _ => ⟨hv₁, hl₁⟩) fun _ =>
        .of_ok (Action.runOn_pure a h₁) ⟨rfl, rfl⟩)
    refine Ends.bind hvector fun b h' hb => ?_
    obtain ⟨rfl, rfl⟩ := hb
    exact Edit.ends hs₁ hv₁ hl₁ (.set i x)
  | pushArgument ts w x =>
    obtain ⟨b, hargs, heq⟩ := Option.map_eq_some_iff.1 he
    cases heq
    obtain ⟨h₁, hrun, hs₁, hv₁, hl₁⟩ := runOn_argumentVector hs hv hl hargs
    exact Ends.bind_ok hrun (Edit.ends hs₁ hv₁ hl₁ (.push x))
  | _ => cases he

end Operation

namespace Session

variable {s t : Session} {o : Operation α}

/-! ## One operation -/

/-- The list of a vector after an operation: what the edit of the vector makes of it, if the operation edits
the vector and succeeds, and else what it was. -/
inductive Turns (s : Session) (o : Operation α) (a : Value) (elem : TypeRef) (xs : List (Option Datum)) :
    List (Option Datum) → Prop
  | other (other : ∀ e, o.edit? s.heap ≠ some (a, e)) : Turns s o a elem xs xs
  | done {e : Edit} {r : α} {ys : List (Option Datum)} (edit : o.edit? s.heap = some (a, e))
      (outcome : (o.perform.runOn s.heap).1 = .ok r) (makes : e.Makes (s.next o).heap elem xs ys) :
      Turns s o a elem xs ys
  | failed {error : Error} (outcome : (o.perform.runOn s.heap).1 = .error error) : Turns s o a elem xs xs

/-- An operation that does not edit a vector leaves its list alone. -/
theorem Sound.other_next (hs : s.Sound) (allowed : s.Allows o) (hv : IsVector s.heap a elem)
    (hl : Lists s.heap a xs) (hother : ∀ e, o.edit? s.heap ≠ some (a, e)) :
    Lists (s.next o).heap a xs ∧ (¬o.Reshapes a → IsVector (s.next o).heap a elem) := by
  have hs' := (next_sound hs o allowed).heap
  have hk := hs.keeps_next o allowed
  obtain ⟨f, rfl, hvec⟩ := hv.vectorOf hs.heap hl
  have ha := hvec.array
  obtain ⟨hwords, hbuffer⟩ :=
    Operation.addresses_other hs.heap (fun b hb => hs.builders b (allowed b hb)) ha hvec.unshared hother
  obtain ⟨g, hg⟩ := (Leads.next .refl o allowed : Leads s (s.next o)).isArray hs ha
  have hx := hvec.holds.reflagged hs.heap hs' ha hg hk
    (fun k hk => hk.elim (fun haddr => (hwords k haddr).2) fun hdead => absurd ha.live hdead)
    fun k hk => hk.elim (hbuffer k) fun hdead => hdead (live_of_typeOf hvec.body.buffer)
  refine ⟨lists_of_holds hs' hg hx, fun hkept => ?_⟩
  have ha' := hs.heap.isArray_kept ha hk fun k hk =>
    hk.elim (fun haddr => hkept (hwords k haddr).1) fun hdead => hdead ha.live
  rw [ha'.unique hg] at hx
  exact VectorOf.isVector ⟨hs', ha', hvec.ndims, hvec.unshared, hx⟩

/-- A vector is a list after an operation if it was one before. -/
theorem Sound.turns (hs : s.Sound) (allowed : s.Allows o) (hv : IsVector s.heap a elem)
    (hl : Lists s.heap a xs) : ∃ ys, Turns s o a elem xs ys ∧ Lists (s.next o).heap a ys ∧
      (¬o.Reshapes a → IsVector (s.next o).heap a elem) := by
  by_cases hedit : ∃ e, o.edit? s.heap = some (a, e)
  · obtain ⟨e, he⟩ := hedit
    have hends := Operation.edit_ends hs.heap hv hl he
    have hheap := s.next_heap o
    rcases hrun : o.perform.runOn s.heap with ⟨error | r, h'⟩
    · obtain ⟨hv', hl'⟩ := hends.failure _ _ hrun
      rw [hrun] at hheap
      rw [hheap]
      exact ⟨xs, .failed (by rw [hrun]), hl', fun _ => hv'⟩
    · obtain ⟨hv', ys, hys, hl'⟩ := hends.answer _ _ hrun
      rw [hrun] at hheap
      rw [hheap]
      exact ⟨ys, .done he (by rw [hrun]) (by rw [hheap]; exact hys), hl', fun _ => hv'⟩
  · have hother := not_exists.1 hedit
    obtain ⟨hl', hv'⟩ := hs.other_next allowed hv hl hother
    exact ⟨xs, .other hother, hl', hv'⟩

/-! ## Any number of operations -/

/-- Any number of operations, none of which reshapes an array. -/
inductive LeadsWithout (a : Value) (s : Session) : Session → Prop
  | refl : LeadsWithout a s s
  | next {α : Type} {t : Session} (before : LeadsWithout a s t) (o : Operation α) (allowed : t.Allows o)
      (kept : ¬o.Reshapes a) : LeadsWithout a s (t.next o)

/-- The list of a vector after a run, operation by operation. -/
inductive Evolves (a : Value) (elem : TypeRef) (s : Session) (xs : List (Option Datum)) :
    Session → List (Option Datum) → Prop
  | refl : Evolves a elem s xs s xs
  | next {α : Type} {t : Session} {ys zs : List (Option Datum)} (before : Evolves a elem s xs t ys)
      (o : Operation α) (turns : Turns t o a elem ys zs) : Evolves a elem s xs (t.next o) zs

theorem LeadsWithout.leads (h : LeadsWithout a s t) : Leads s t := by
  induction h with
  | refl => exact .refl
  | next _ o allowed _ ih => exact ih.next o allowed

theorem LeadsWithout.evolves (h : LeadsWithout a s t) (hs : s.Sound) (hv : IsVector s.heap a elem)
    (hl : Lists s.heap a xs) :
    IsVector t.heap a elem ∧ ∃ ys, Evolves a elem s xs t ys ∧ Lists t.heap a ys := by
  induction h with
  | refl => exact ⟨hv, xs, .refl, hl⟩
  | next before o allowed kept ih =>
    obtain ⟨hv', ys, hevolves, hl'⟩ := ih
    obtain ⟨zs, hturns, hl'', hv''⟩ := (before.leads.sound hs).turns allowed hv' hl'
    exact ⟨hv'' kept, zs, hevolves.next o hturns, hl''⟩

theorem Sound.newVector (hs : s.Sound) {n : UInt64}
    (hrun : (Operation.newVector elem n).perform.runOn s.heap = (.ok a, h')) :
    IsVector h' a elem ∧ ∃ d, h'.Default elem d ∧ Lists h' a (List.replicate n.toNat d) := by
  have hready : Ready (fun _ _ => True) s.heap := ⟨hs.heap, fun _ _ => trivial⟩
  have hmeets := ArrayObject.newVector_meets hready elem n.toNat
  obtain ⟨hp, f, hnew⟩ := (Ends.of_meets hmeets).answer a h' hrun
  obtain ⟨d, hd, hv⟩ := hnew.vectorOf (hp.sound hs.heap)
  exact ⟨by rw [← hnew.elem]; exact hv.isVector, d, hd, hv.lists⟩

/-- Vectors are lists. A new vector is a list of defaults; every vector is a list; after any operation it is
the list that the operation makes of it, which is what it was unless the operation edits the vector; and
so on for any number of operations, through which it stays a vector of the same elements as long as it is
not reshaped. -/
theorem Reachable.vectors_are_lists (hs : Reachable s) :
    (∀ elem n a h', (Operation.newVector elem n).perform.runOn s.heap = (.ok a, h') →
      IsVector h' a elem ∧ ∃ d, h'.Default elem d ∧ Lists h' a (List.replicate n.toNat d)) ∧
    (∀ a elem, IsVector s.heap a elem → ∃ xs, Lists s.heap a xs) ∧
    ∀ a elem xs, IsVector s.heap a elem → Lists s.heap a xs →
      (∀ {α} (o : Operation α), s.Allows o →
        ∃ ys, Turns s o a elem xs ys ∧ Lists (s.next o).heap a ys) ∧
      ∀ t, LeadsWithout a s t →
        IsVector t.heap a elem ∧ ∃ ys, Evolves a elem s xs t ys ∧ Lists t.heap a ys := by
  have hsound := hs.sound
  refine ⟨fun elem n a h' hrun => hsound.newVector hrun, fun a elem hv => ?_,
    fun a elem xs hv hl => ⟨fun o allowed => ?_, fun t h => h.evolves hsound hv hl⟩⟩
  · obtain ⟨f, ha, -⟩ := hv.exists_info hsound.heap
    exact exists_lists hsound.heap ha
  · obtain ⟨ys, hturns, hl', -⟩ := hsound.turns allowed hv hl
    exact ⟨ys, hturns, hl'⟩

/-- A vector of two numbers, and a box with another number. -/
def numbers : Session :=
  start ⟨64, 4096⟩ .off |>.next (.box .int64 (7 : Int64)) |>.next (.newVector ScalarKind.int64.type 2)

/-- The third number has no room in the buffer, so that the vector moves to another one. -/
def appendNumber : Operation Unit := .push (object 64) (object 16)

/-- What the words of the vector say. -/
def numbersInfo (length capacity buffer : Nat) : ArrayInfo :=
  { elem := ScalarKind.int64.type
    flags := { ndims := 1, storage := .flat, isShared := false, slotSize := 8 }
    length, capacity, buffer := object buffer }

theorem vectors_are_lists_numbers :
    Reachable numbers ∧ IsVector numbers.heap (object 64) ScalarKind.int64.type ∧
      LeadsWithout (object 64) numbers (numbers.next appendNumber) ∧
      ∃ xs ys, Lists numbers.heap (object 64) xs ∧ xs.length = 2 ∧
        Evolves (object 64) ScalarKind.int64.type numbers xs (numbers.next appendNumber) ys ∧
        Lists (numbers.next appendNumber).heap (object 64) ys ∧ ys.length = 3 := by
  have hs : Reachable numbers := ((reachable_start _ _).next _ (by nofun)).next _ (by nofun)
  have hinfo : info numbers.heap (object 64) = .ok (numbersInfo 2 2 32) := by decide +kernel
  have hinfo' : info (numbers.next appendNumber).heap (object 64) = .ok (numbersInfo 3 4 128) := by
    decide +kernel
  have hv : IsVector numbers.heap (object 64) ScalarKind.int64.type :=
    ⟨bind_eq_ok.2 ⟨_, hinfo, rfl⟩, bind_eq_ok.2 ⟨_, hinfo, rfl⟩, bind_eq_ok.2 ⟨_, hinfo, rfl⟩⟩
  have hrun : LeadsWithout (object 64) numbers (numbers.next appendNumber) := .next .refl _ nofun id
  obtain ⟨-, hlists, hruns⟩ := hs.vectors_are_lists
  obtain ⟨xs, hx⟩ := hlists _ _ hv
  obtain ⟨-, ys, hevolves, hy⟩ := (hruns _ _ xs hv hx).2 _ hrun
  have hlength : length numbers.heap (object 64) = .ok 2 := bind_eq_ok.2 ⟨_, hinfo, rfl⟩
  have hlength' : length (numbers.next appendNumber).heap (object 64) = .ok 3 := bind_eq_ok.2 ⟨_, hinfo', rfl⟩
  exact ⟨hs, hv, hrun, xs, ys, hx, Except.ok.inj (hx.length.symm.trans hlength), hevolves, hy,
    Except.ok.inj (hy.length.symm.trans hlength')⟩

end Session

end TypedHeap
