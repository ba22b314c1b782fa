import TypedHeap.Proofs.Node.Editing
import TypedHeap.Proofs.Session.Lists
import TypedHeap.Proofs.Session.Operands

/-!
# Expressions are heads and lists

Expressions may be arguments of each other and of themselves, they share a heap with everything else, and their
arguments move about in it as they grow in number. To whoever works with any of them, each is still a head and a list
of arguments, on which only what is done to this one expression has an effect.

* `Operation.Spares`: operations that an expression does not notice.
* `Session.Edits`: the expressions that were made in a run, and what became of them.
* `Session.Holds`: the objects behind these expressions.

Main result: `Session.Reachable.expressions_edited`.
-/

namespace TypedHeap

open Heap Nodes ArrayObject

variable {α : Type} {h : Heap} {ts : NodeTypes} {e a v : Value} {x : Expression} {k : Nat}

/-- An operation that is not about any object of an expression. -/
def Operation.Spares (o : Operation α) (ts : NodeTypes) (h : Heap) (e : Value) : Prop :=
  ∀ v, PartOf ts h e v → ∀ k, ¬o.Addresses h v k

namespace Nodes.Revision

/-- The operation by which an expression is revised. -/
def operation (ts : NodeTypes) (e : Value) : Revision → Operation Unit
  | setHead s => .setHead ts e s
  | setArgument i x => .setArgument ts e i x
  | pushArgument x => .pushArgument ts e x

/-- Its builder is none, so it is always allowed. -/
theorem allows (s : Session) (r : Revision) : s.Allows (r.operation ts e) := by
  cases r <;> exact Session.allows_of_none rfl

/-- Who revises an expression is about objects of this expression. -/
theorem partOf_of_addresses {r : Revision} (ha : (r.operation ts e).Addresses h v k) : PartOf ts h e v := by
  cases r with
  | setHead s =>
    obtain ⟨rfl, -⟩ := ha
    exact .record
  | setArgument i x =>
    obtain ⟨args, of, f, info, rfl⟩ := ha
    exact .buffer of info
  | pushArgument x =>
    obtain ⟨args, of, f, info, rfl | rfl⟩ := ha
    · exact .arguments of
    · exact .buffer of info

end Nodes.Revision

namespace Session

variable {r s t : Session} {σ : Value → Option Expression} {vec : Value → Value}

/-! ## One operation -/

/-- An expression stays what it is through an operation that spares it. -/
theorem Sound.expresses_next (hs : s.Sound) (hreg : ts.Registered s.heap.types) {o : Operation α}
    (allowed : s.Allows o) (he : Expresses ts s.heap e a x) (hspares : o.Spares ts s.heap e) :
    Expresses ts (s.next o).heap e a x := by
  have hnext : Leads s (s.next o) := .next .refl o allowed
  refine he.keeps hreg hs.heap (hnext.sound hs).heap (hs.keeps_next o allowed) (fun v hv k hor => ?_) (hnext.symbols hs)
  exact hor.elim (hspares v hv k) fun hdead => hdead (he.live hreg hs.heap hv)

/-- An edit of the vector is one of the arguments, and the head stays. If it fails, the arguments stay as well. -/
theorem Sound.edited_next (hs : s.Sound) (he : Expresses ts s.heap e a x)
    {o : Operation Unit} (allowed : s.Allows o) (edit : Edit) (hedit : o.edit? s.heap = some (a, edit))
    (hspares : ∀ k, ¬o.Addresses s.heap e k) {args : List Value}
    (hmakes : ∀ h' ys, h'.Sound →
      edit.Makes h' Builtin.any (x.args.map fun y => some (.ref y)) ys → ys = args.map fun y => some (.ref y)) :
    ((o.perform.runOn s.heap).1 = .ok () → Expresses ts (s.next o).heap e a { x with args }) ∧
      ∀ err, (o.perform.runOn s.heap).1 = .error err → Expresses ts (s.next o).heap e a x := by
  have hnext : Leads s (s.next o) := .next .refl o allowed
  have hrecord : (s.next o).heap.RecordOf e (ts.ofKind .expr) [.scalar .symbol x.head, .ref (some a)] :=
    he.record.keeps hs.heap (hs.keeps_next o allowed)
      (fun k hor => hor.elim (hspares k) fun hdead => hdead (live_of_typeOf he.record.type)) (hnext.symbols hs)
  have hends := Operation.edit_ends hs.heap he.vector he.lists hedit
  have hrun (res : Except Error Unit) (heq : (o.perform.runOn s.heap).1 = res) :
      o.perform.runOn s.heap = (res, (s.next o).heap) := Prod.ext heq (s.next_heap o).symm
  refine ⟨fun hok => ?_, fun err herror => ?_⟩
  · obtain ⟨hvector, ys, hys, hlists⟩ := hends.answer () _ (hrun _ hok)
    obtain rfl := hmakes _ ys (hnext.sound hs).heap hys
    exact ⟨hrecord, hvector, hlists⟩
  · obtain ⟨hvector, hlists⟩ := hends.failure err _ (hrun _ herror)
    exact ⟨hrecord, hvector, hlists⟩

/-- An expression follows what is done to it, and a failure changes nothing of it. -/
theorem Reachable.revised_next (hs : Reachable s) (hreg : ts.Registered s.heap.types)
    (he : Expresses ts s.heap e a x) (r : Revision) :
    (((r.operation ts e).perform.runOn s.heap).1 = .ok () →
        Expresses ts (s.next (r.operation ts e)).heap e a (r.apply x)) ∧
      ∀ err, ((r.operation ts e).perform.runOn s.heap).1 = .error err →
        Expresses ts (s.next (r.operation ts e)).heap e a x := by
  have hsound := hs.sound
  have hargs : ((argumentVector ts e).runOn s.heap).1 = .ok a := he.argumentsOf hreg hsound.heap
  cases r with
  | setHead c =>
    have hends := setHead_ends he hreg hs.orderly c
    rw [next_heap]
    refine ⟨fun hok => hends.answer () _ (Prod.ext hok rfl), fun err herror => ?_⟩
    have hsame : ((Revision.setHead c).operation ts e).perform.runOn s.heap = (.error err, s.heap) :=
      Prod.ext herror (hends.failure err _ (Prod.ext herror rfl))
    rw [hsame]
    exact he
  | setArgument i y =>
    refine hsound.edited_next he (Revision.allows s (.setArgument i y)) (.set i y)
      (by rw [Revision.operation, Operation.edit?, hargs]; rfl) (fun k haddr => ?_) fun h' ys hs' hys => ?_
    · obtain ⟨b, of, g, info, heq⟩ := haddr
      cases of.symm.trans hargs
      exact (he.ne_array hreg hsound.heap (hsound.heap.info_iff.1 info)).2 heq
    · cases hys with
      | set lt stores => rw [stores_any hs' stores, List.map_set]
  | pushArgument y =>
    refine hsound.edited_next he (Revision.allows s (.pushArgument y)) (.push y)
      (by rw [Revision.operation, Operation.edit?, hargs]; rfl) (fun k haddr => ?_) fun h' ys hs' hys => ?_
    · obtain ⟨b, of, g, info, heq⟩ := haddr
      have hne := he.ne_array hreg hsound.heap (hsound.heap.info_iff.1 info)
      exact heq.elim hne.1 hne.2
    · cases hys with
      | push stores => rw [stores_any hs' stores, List.map_append, List.map_singleton]

/-! ## The expressions of a run -/

/-- The expressions that were made in a run, and what they have become by what was done to each of them. Anything else
may happen in between that is not about any object of theirs. -/
inductive Edits (ts : NodeTypes) (s : Session) : Session → (Value → Option Expression) → Prop
  | start : Edits ts s s fun _ => none
  | made {t : Session} {σ : Value → Option Expression} (before : Edits ts s t σ) (x : Expression) {e : Value}
      (done : ((Operation.encode ts (.expr x.head x.args)).perform.runOn t.heap).1 = .ok e) :
      Edits ts s (t.next (.encode ts (.expr x.head x.args))) (Function.update σ e (some x))
  | revised {t : Session} {σ : Value → Option Expression} (before : Edits ts s t σ) {e : Value} {x : Expression}
      (member : σ e = some x) (r : Revision) (done : ((r.operation ts e).perform.runOn t.heap).1 = .ok ()) :
      Edits ts s (t.next (r.operation ts e)) (Function.update σ e (some (r.apply x)))
  | refused {t : Session} {σ : Value → Option Expression} (before : Edits ts s t σ) {e : Value} {x : Expression}
      (member : σ e = some x) (r : Revision) {error : Error}
      (failed : ((r.operation ts e).perform.runOn t.heap).1 = .error error) : Edits ts s (t.next (r.operation ts e)) σ
  | other {α : Type} {t : Session} {σ : Value → Option Expression} (before : Edits ts s t σ) (o : Operation α)
      (allowed : t.Allows o) (spares : ∀ e x, σ e = some x → o.Spares ts t.heap e) : Edits ts s (t.next o) σ

theorem Edits.leads (h : Edits ts s t σ) : Leads s t := by
  induction h with
  | start => exact .refl
  | made _ x _ ih => exact ih.next _ (allows_of_none rfl)
  | revised _ _ r _ ih => exact ih.next _ (r.allows _)
  | refused _ _ r _ ih => exact ih.next _ (r.allows _)
  | other _ o allowed _ ih => exact ih.next o allowed

/-- The objects that have become expressions. -/
def members (σ : Value → Option Expression) : Set Value := {e | ∃ x, σ e = some x}

theorem members_update (σ : Value → Option Expression) (e : Value) (x : Expression) :
    members (Function.update σ e (some x)) = insert e (members σ) := by
  ext w
  rw [Set.mem_insert_iff]
  by_cases hw : w = e
  · simp [members, hw]
  · simp [members, hw]

/-- The objects behind expressions. Each has a vector of its own for its arguments. -/
structure Holds (ts : NodeTypes) (h : Heap) (σ : Value → Option Expression) (vec : Value → Value) : Prop where
  expresses : ∀ e x, σ e = some x → Expresses ts h e (vec e) x
  own : Set.InjOn vec (members σ)

namespace Holds

variable (hσ : Holds ts s.heap σ vec) (hreg : ts.Registered s.heap.types) (hs : s.Sound)

include hσ hreg hs

theorem other_next (o : Operation α) (allowed : s.Allows o) (hspares : ∀ e x, σ e = some x → o.Spares ts s.heap e) :
    Holds ts (s.next o).heap σ vec where
  expresses e x hx := hs.expresses_next hreg allowed (hσ.expresses e x hx) (hspares e x hx)
  own := hσ.own

/-- What is done to one expression is not about the others. -/
theorem spares (he : σ e = some x) (r : Revision) {w : Value} {y : Expression} (hw : σ w = some y) (hne : w ≠ e) :
    (r.operation ts e).Spares ts s.heap w := by
  intro v hv k haddr
  have hvectors : vec w ≠ vec e := fun heq => hne (hσ.own ⟨y, hw⟩ ⟨x, he⟩ heq)
  exact (hσ.expresses w y hw).apart hreg hs.heap (hσ.expresses e x he) hne hvectors hv
    (Revision.partOf_of_addresses haddr)

/-- One expression may change while the others stay. -/
theorem revised_next (he : σ e = some x) (r : Revision) {z : Expression}
    (hz : Expresses ts (s.next (r.operation ts e)).heap e (vec e) z) :
    Holds ts (s.next (r.operation ts e)).heap (Function.update σ e (some z)) vec where
  expresses w y hy := by
    by_cases hwe : w = e
    · subst hwe
      rw [Function.update_self, Option.some.injEq] at hy
      exact hy ▸ hz
    · rw [Function.update_of_ne hwe] at hy
      exact hs.expresses_next hreg (r.allows s) (hσ.expresses w y hy) (hσ.spares hreg hs he r hy hwe)
  own := by
    have hmember : e ∈ members σ := ⟨x, he⟩
    rw [members_update, Set.insert_eq_of_mem hmember]
    exact hσ.own

/-- A new expression is another object than those before, with another vector. -/
theorem made_next (ho : s.heap.Orderly) (x : Expression)
    (done : ((Operation.encode ts (.expr x.head x.args)).perform.runOn s.heap).1 = .ok e) :
    σ e = none ∧ ∃ a, Holds ts (s.next (.encode ts (.expr x.head x.args))).heap (Function.update σ e (some x))
      (Function.update vec e a) := by
  have hnew := (encodeExpr_ends ho hreg x).answer e _ (Prod.ext done rfl)
  obtain ⟨hfresh, a, hvector, hx⟩ := hnew
  -- What earlier expressions consist of was there before, unlike the new object and its vector.
  have hmember {w : Value} (hw : w ∈ members σ) : w ≠ e ∧ vec w ≠ a := by
    obtain ⟨y, hy⟩ := hw
    have he := hσ.expresses w y hy
    have hlive {v : Value} (hv : PartOf ts s.heap w v) : s.heap.Live v := he.live hreg hs.heap hv
    exact ⟨fun heq => hfresh (heq ▸ hlive .record),
      fun heq => hvector (heq ▸ hlive (.arguments (he.argumentsOf hreg hs.heap)))⟩
  have he : e ∉ members σ := fun he => (hmember he).1 rfl
  refine ⟨Option.eq_none_iff_forall_ne_some.2 fun y hy => he ⟨y, hy⟩, a, fun w y hy => ?_, ?_⟩
  · by_cases hwe : w = e
    · subst hwe
      rw [Function.update_self, Option.some.injEq] at hy
      rw [Function.update_self, next_heap, ← hy]
      exact hx
    · rw [Function.update_of_ne hwe] at hy ⊢
      exact hs.expresses_next hreg (allows_of_none rfl) (hσ.expresses w y hy) fun _ _ _ haddr => haddr
  · have hkept : Set.EqOn vec (Function.update vec e a) (members σ) := fun w hw =>
      (Function.update_of_ne (hmember hw).1 a vec).symm
    rw [members_update, Set.injOn_insert he, Function.update_self]
    refine ⟨hσ.own.congr hkept, ?_⟩
    rintro ⟨w, hw, heq⟩
    rw [← hkept hw] at heq
    exact (hmember hw).2 heq

end Holds

/-- By induction on the run: expressions are held by objects of their own. -/
theorem Edits.exists_holds (h : Edits ts s t σ) (hs : Reachable s) (hreg : ts.Registered s.heap.types) :
    ∃ vec, Holds ts t.heap σ vec := by
  have hready {t : Session} {σ : Value → Option Expression} (h : Edits ts s t σ) :
      Reachable t ∧ ts.Registered t.heap.types :=
    ⟨hs.leads h.leads, hreg.extends (h.leads.grows hs.sound).types.extends⟩
  induction h with
  | start => exact ⟨id, nofun, fun _ hw => nomatch hw⟩
  | made before x done ih =>
    obtain ⟨vec, hσ⟩ := ih
    obtain ⟨ht, hregt⟩ := hready before
    obtain ⟨-, a, hmade⟩ := hσ.made_next hregt ht.sound ht.orderly x done
    exact ⟨_, hmade⟩
  | revised before member r done ih =>
    obtain ⟨vec, hσ⟩ := ih
    obtain ⟨ht, hregt⟩ := hready before
    exact ⟨vec, hσ.revised_next hregt ht.sound member r ((ht.revised_next hregt (hσ.expresses _ _ member) r).1 done)⟩
  | refused before member r failed ih =>
    obtain ⟨vec, hσ⟩ := ih
    obtain ⟨ht, hregt⟩ := hready before
    -- A revision that is refused is one that leaves the expression what it was.
    have hsame := hσ.revised_next hregt ht.sound member r
      ((ht.revised_next hregt (hσ.expresses _ _ member) r).2 _ failed)
    rw [← member, Function.update_eq_self] at hsame
    exact ⟨vec, hsame⟩
  | other before o allowed spares ih =>
    obtain ⟨vec, hσ⟩ := ih
    obtain ⟨ht, hregt⟩ := hready before
    exact ⟨vec, hσ.other_next hregt ht.sound o allowed spares⟩

/-- Expressions that are made, and are changed by setting heads and by setting and adding arguments, in any order, are
heads and lists of arguments. Whatever else happens that is not about the objects of these expressions, each of them
answers as the head and the list do that its own changes have led to: it reads as these, it has as many arguments, and
getting or setting an argument fails for the index exactly from the end of the list on. A new expression is none of
those before. -/
theorem Reachable.expressions_edited (hr : Reachable r)
    (hts : ((Operation.registerNodes).perform.runOn r.heap).1 = .ok ts) (hs : Leads (r.next .registerNodes) s)
    (h : Edits ts s t σ) :
    (∀ e x, σ e = some x → Answers ts t.heap e x) ∧
      ∀ (x : Expression) (e : Value),
        ((Operation.encode ts (.expr x.head x.args)).perform.runOn t.heap).1 = .ok e → σ e = none := by
  have hs' : Reachable s := (hr.next .registerNodes (allows_of_none rfl)).leads hs
  have ht : Reachable t := hs'.leads h.leads
  have hreg := Leads.registered hr.sound hts hs
  have hregt := Leads.registered hr.sound hts (hs.trans h.leads)
  obtain ⟨vec, hσ⟩ := h.exists_holds hs' hreg
  exact ⟨fun e x hx => (hσ.expresses e x hx).answers hregt ht.sound.heap,
    fun x e done => (hσ.made_next hregt ht.sound ht.orderly x done).1⟩

/-- Two expressions, one of which is about the other. -/
def drafts : Session :=
  main |>.next (.encode nodeTypes (.expr "call" [object 16]))
    |>.next (.encode nodeTypes (.expr "add" [object 160, object 16]))

/-- The first one gets itself as an argument, and the other one, for which it needs another buffer. -/
def entangled : Session :=
  drafts |>.next (.setArgument nodeTypes (object 160) 0 (object 160))
    |>.next (.pushArgument nodeTypes (object 160) (object 304))

/-- The other one gets another head, but not an argument where it has none. -/
def reworked : Session :=
  entangled |>.next (.setHead nodeTypes (object 304) "sub")
    |>.next (.setArgument nodeTypes (object 304) 2 (object 160))
    |>.next (.newString "text")

theorem expressions_edited_reworked :
    Leads ((start ⟨64, 4096⟩ .off).next .registerNodes) main ∧ ∃ σ, Edits nodeTypes main reworked σ ∧
      σ (object 160) = some ⟨"call", [object 160, object 304]⟩ ∧
      σ (object 304) = some ⟨"sub", [object 160, object 16]⟩ ∧
      Answers nodeTypes reworked.heap (object 160) ⟨"call", [object 160, object 304]⟩ ∧
      Answers nodeTypes reworked.heap (object 304) ⟨"sub", [object 160, object 16]⟩ := by
  have hruns : ((Operation.encode nodeTypes (.expr "call" [object 16])).perform.runOn main.heap).1 = .ok (object 160) ∧
      ((Operation.encode nodeTypes (.expr "add" [object 160, object 16])).perform.runOn
        (main.next (.encode nodeTypes (.expr "call" [object 16]))).heap).1 = .ok (object 304) ∧
      ((Operation.setArgument nodeTypes (object 160) 0 (object 160)).perform.runOn drafts.heap).1 = .ok () ∧
      ((Operation.pushArgument nodeTypes (object 160) (object 304)).perform.runOn
        (drafts.next (.setArgument nodeTypes (object 160) 0 (object 160))).heap).1 = .ok () ∧
      ((Operation.setHead nodeTypes (object 304) "sub").perform.runOn entangled.heap).1 = .ok () ∧
      ((Operation.setArgument nodeTypes (object 304) 2 (object 160)).perform.runOn
        (entangled.next (.setHead nodeTypes (object 304) "sub")).heap).1 =
          .error (.indexOutOfRange .argument 2 2) := by decide +kernel
  obtain ⟨hcall, hadd, hset, hpush, hhead, hrefused⟩ := hruns
  have hmain : Edits nodeTypes main main fun _ => none := .start
  have hdrafts := (hmain.made ⟨"call", [object 16]⟩ hcall).made ⟨"add", [object 160, object 16]⟩ hadd
  have hentangled := (hdrafts.revised (e := object 160) rfl (.setArgument 0 (object 160)) hset).revised
    (e := object 160) rfl (.pushArgument (object 304)) hpush
  have hreworked := ((hentangled.revised (e := object 304) rfl (.setHead "sub") hhead).refused (e := object 304) rfl
    (.setArgument 2 (object 160)) hrefused).other (.newString "text") (allows_of_none rfl) fun _ _ _ _ _ _ => id
  have hleads : Leads ((start ⟨64, 4096⟩ .off).next .registerNodes) main := .next .refl _ (allows_of_none rfl)
  have hanswers := ((reachable_start ⟨64, 4096⟩ .off).expressions_edited registered_main hleads hreworked).1
  exact ⟨hleads, _, hreworked, rfl, rfl, hanswers (object 160) _ rfl, hanswers (object 304) _ rfl⟩

end Session
end TypedHeap
