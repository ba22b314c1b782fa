import TypedHeap.Node.Walk
import TypedHeap.Proofs.Array.Shape
import TypedHeap.Proofs.Object.Record

/-!
# Expressions, joins and walks

Reading nodes changes nothing but what the registry remembers. Changing an expression changes the
node, its vector of arguments, or the buffer of that.

* `Nodes.argument_meets`, `optionalElements_meets`, `walk_meets`, …: reading.
* `Nodes.setHead_meets`, `setArgument_meets`, `pushArgument_meets`: changing.
-/

namespace TypedHeap.Nodes

open TypedHeap.Action (Meets)
open Heap

variable {h h' : Heap} {ts : NodeTypes} {e a v x phi : Value} {f : ArrayInfo} {i n : Nat}
  {S : Value → Nat → Prop}

/-! ## Expressions -/

theorem argumentVector_meets (ts : NodeTypes) (e : Value) :
    Meets Learns (argumentVector ts e) h fun _ _ => True := by
  unfold argumentVector
  refine Meets.look_bind fun _ _ => Meets.bind (Record.read_meets e _) fun d h' _ _ => ?_
  split
  · exact Meets.pure trivial
  · exact Meets.throw _

theorem head_meets (ts : NodeTypes) (e : Value) : Meets Learns (head ts e) h fun _ _ => True :=
  Meets.look_bind fun _ _ => Record.readScalar_meets _ _ _

theorem argumentCount_meets (ts : NodeTypes) (e : Value) :
    Meets Learns (argumentCount ts e) h fun _ _ => True :=
  Meets.bind (argumentVector_meets ts e) fun _ _ _ _ => Meets.look fun _ _ => trivial

/-- The vector that holds the arguments of an expression in a heap. -/
def ArgumentsOf (ts : NodeTypes) (h : Heap) (e args : Value) : Prop :=
  ((argumentVector ts e).runOn h).1 = .ok args

theorem vectorWith_meets (ts : NodeTypes) (e : Value) (i : Nat) :
    Meets Learns (vectorWith ts e i) h fun args _ => ArgumentsOf ts h e args := by
  unfold vectorWith
  refine Meets.bind (argumentVector_meets ts e).ran fun args h₁ _ hrun => ?_
  refine Meets.look_bind fun n _ => Meets.guard fun _ => Meets.pure ?_
  rw [ArgumentsOf, hrun.1]

theorem argument_meets (hs : h.Sound) (ts : NodeTypes) (e : Value) (i : Nat) :
    Meets Learns (argument ts e i) h fun _ _ => True := by
  unfold argument
  refine Meets.bind (vectorWith_meets ts e i) fun args h₁ hl _ => ?_
  refine Meets.bind (ArrayObject.get_meets (hs.learns hl) args i) fun d h₂ _ _ => ?_
  split
  · exact Meets.pure trivial
  · exact Meets.throw _

/-- Questions about one argument or element after the other. -/
theorem mapM_meets {α β : Type} {f : α → HeapM β} {l : List α} (hs : h.Sound)
    (hf : ∀ a ∈ l, ∀ h : Heap, h.Sound → Meets Learns (f a) h fun _ _ => True) :
    Meets Learns (l.mapM f) h fun _ _ => True :=
  (Meets.mapM l (I := Heap.Sound) (P := fun _ _ _ => True) hs (fun _ _ hs hl => hs.learns hl)
    (fun _ _ _ _ _ _ => id) hf).mono fun _ _ _ _ => trivial

theorem firstArguments_meets (hs : h.Sound) (ts : NodeTypes) (e : Value) (count : Nat) :
    Meets Learns (firstArguments ts e count) h fun _ _ => True :=
  mapM_meets hs fun i _ _ hs => argument_meets hs ts e i

/-! ## Changing expressions -/

theorem setHead_meets (hr : Ready S h) (hS : Record.Mutable h e → ∀ j, S e j) (ts : NodeTypes)
    (s : Symbol) : Meets (Path S) (setHead ts e s) h fun _ _ => True :=
  Meets.look_bind fun _ _ => Record.writeScalar_meets hr hS _ _ _

/-- An array is after a question what it was before. -/
theorem isArray_of_learns (hs : h.Sound) (hl : h.Learns h') (ha : h'.IsArray a f) : h.IsArray a f := by
  obtain ⟨n, hn⟩ := ha.live
  rw [hl.size?_eq] at hn
  exact hs.isArray_of_live (hl.keeps fun _ _ => False) ⟨n, hn⟩ ha fun _ => id

theorem setArgument_meets (hr : Ready S h)
    (hS : ∀ {args f}, ArgumentsOf ts h e args → h.IsArray args f → ∀ j, S f.buffer j) (i : Nat)
    (x : Value) : Meets (Path S) (setArgument ts e i x) h fun _ _ => True := by
  unfold setArgument
  refine learns_bind (vectorWith_meets ts e i) fun args h₁ hl hargs => ?_
  exact ArrayObject.set_meets (hr.learns hl).sound
    (fun ha => hS hargs (isArray_of_learns hr.sound hl ha)) i x

theorem pushArgument_meets (hr : Ready S h)
    (hS : ∀ {args f}, ArgumentsOf ts h e args → h.IsArray args f →
      (∀ j, S args j) ∧ ∀ j, S f.buffer j)
    (x : Value) : Meets (Path S) (pushArgument ts e x) h fun _ _ => True := by
  unfold pushArgument
  refine learns_bind (argumentVector_meets ts e).ran fun args h₁ hl hrun => ?_
  have hargs : ArgumentsOf ts h e args := by rw [ArgumentsOf, hrun.1]
  exact ArrayObject.push_meets (hr.learns hl)
    (fun ha => (hS hargs (isArray_of_learns hr.sound hl ha)).1)
    (fun ha => (hS hargs (isArray_of_learns hr.sound hl ha)).2) x

/-! ## Joins -/

theorem optionalElement_meets (hs : h.Sound) (a : Value) (i : Nat) :
    Meets Learns (optionalElement a i) h fun _ _ => True := by
  unfold optionalElement
  refine Meets.bind (Meets.attempt (ArrayObject.get_meets hs a i)) fun r h' _ _ => ?_
  split
  · exact Meets.pure trivial
  · exact Meets.pure trivial
  · exact Meets.throw _

theorem optionalElements_meets (hs : h.Sound) (a : Value) :
    Meets Learns (optionalElements a) h fun _ _ => True :=
  Meets.look_bind fun _ _ => mapM_meets hs fun i _ _ hs => optionalElement_meets hs a i

theorem edges_meets (hs : h.Sound) (a : Value) : Meets Learns (edges a) h fun _ _ => True :=
  Meets.look_bind fun _ _ => mapM_meets hs fun i _ _ hs => ArrayObject.getScalar_meets hs _ a i

theorem phiParts_meets (hs : h.Sound) (phi : Value) :
    Meets Learns (phiParts phi) h fun _ _ => True := by
  unfold phiParts
  refine Meets.bind (P := fun _ h' => h'.Sound) ?_ fun es h₁ _ hs₁ => ?_
  · exact (Record.readRef_meets phi 0).mono fun _ _ hl _ => hs.learns hl
  refine Meets.bind (P := fun _ h' => h'.Sound) ?_ fun _ h₂ _ hs₂ => ?_
  · exact (edges_meets hs₁ es).mono fun _ _ hl _ => hs₁.learns hl
  refine Meets.bind (P := fun _ h' => h'.Sound) ?_ fun vs h₃ _ hs₃ => ?_
  · exact (Record.readRef_meets phi 1).mono fun _ _ hl _ => hs₂.learns hl
  exact Meets.bind (optionalElements_meets hs₃ vs) fun _ _ _ _ => Meets.pure trivial

theorem phiOperands_meets (hs : h.Sound) (ts : NodeTypes) (phi : Value) :
    Meets Learns (phiOperands ts phi) h fun _ _ => True :=
  Meets.look_bind fun _ _ => Meets.bind (phiParts_meets hs phi) fun _ _ _ _ => Meets.pure trivial

theorem phicValues_meets (hs : h.Sound) (ts : NodeTypes) (phic : Value) :
    Meets Learns (phicValues ts phic) h fun _ _ => True := by
  unfold phicValues
  refine Meets.look_bind fun _ _ => Meets.bind (Record.readRef_meets phic 0) fun vs h₁ hl _ => ?_
  exact optionalElements_meets (hs.learns hl) vs

/-! ## Walks -/

theorem argumentsBefore_meets (hs : h.Sound) (ts : NodeTypes) (e : Value) (count : Nat)
    (rest : List Value) : Meets Learns (argumentsBefore ts e count rest) h fun _ _ => True := by
  induction count generalizing h rest with
  | zero => exact Meets.pure trivial
  | succ count ih =>
    refine Meets.bind (argument_meets hs ts e count) fun x h' hl _ => ?_
    exact ih (hs.learns hl) (x :: rest)

theorem after_meets (hs : h.Sound) (ts : NodeTypes) (v : Value) (rest : List Value) :
    Meets Learns (after ts v rest) h fun _ _ => True := by
  unfold after
  refine Meets.look_bind fun k _ => ?_
  split
  · refine Meets.bind (argumentCount_meets ts v) fun n h' hl _ => ?_
    exact argumentsBefore_meets (hs.learns hl) ts v n rest
  · exact Meets.pure trivial

theorem walkFrom_meets (hs : h.Sound) (ts : NodeTypes) (steps : Nat) (seen pending : List Value) :
    Meets Learns (walkFrom ts steps seen pending) h fun _ _ => True := by
  induction steps generalizing h seen pending with
  | zero =>
    rw [walkFrom.eq_def]
    dsimp only
    cases pending.dropWhile (seen.contains ·) <;> exact Meets.pure trivial
  | succ steps ih =>
    rw [walkFrom.eq_def]
    dsimp only
    cases pending.dropWhile (seen.contains ·) with
    | nil => exact Meets.pure trivial
    | cons v rest =>
      refine Meets.bind (Meets.attempt (after_meets hs ts v rest)) fun r h' hl _ => ?_
      cases r with
      | ok next => exact ih (hs.learns hl) (v :: seen) next
      | error e => exact Meets.pure trivial

theorem walk_meets (hs : h.Sound) (ts : NodeTypes) (root : Value) :
    Meets Learns (walk ts root) h fun _ _ => True :=
  Meets.get_bind (walkFrom_meets hs ts _ [] [root])

theorem visit_meets (hs : h.Sound) (ts : NodeTypes) (root : Value) :
    Meets Learns (visit ts root) h fun _ _ => True := by
  unfold visit
  exact Meets.bind (walk_meets hs ts root) fun w h' _ _ => Meets.lift_bind fun _ _ => Meets.pure trivial

end TypedHeap.Nodes
