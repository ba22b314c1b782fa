import TypedHeap.Node.Codec
import TypedHeap.Proofs.Node.Expr
import TypedHeap.Proofs.Object.SimpleVector

/-!
# Nodes as objects

Making the object for a node makes new objects only, and reading it back changes none.

Main results: `Node.encode_meets`, `Nodes.decode_meets`.
-/

namespace TypedHeap

open TypedHeap.Action (Meets)
open Heap

variable {h h' : Heap} {ts : NodeTypes} {a v x : Value} {f : ArrayInfo} {i : Nat}
  {S : Value → Nat → Prop}

namespace Node

/-! ## Making objects -/

/-- One element is set, and then the rest of them. -/
theorem set_bind {y : HeapM Unit} (hs : h.Sound) (ha : h.IsArray a f) (hS : ∀ j, S f.buffer j) (i : Nat)
    (x : Value)
    (hy : ∀ h' : Heap, h'.Sound → h'.IsArray a f → Meets (Path S) y h' fun _ _ => True) :
    Meets (Path S) (ArrayObject.set a i x >>= fun _ => y) h fun _ _ => True := by
  have hset := ArrayObject.set_meets (S := S) hs (fun hg => by rw [ha.unique hg]; exact hS) i x
  refine Meets.bind hset.ran fun _ h₁ hpath hrun => hy h₁ (hpath.sound hs) ?_
  have ha₁ := ArrayObject.set_isArray hs ha i x
  rwa [hrun.1] at ha₁

theorem fillDefinedFrom_meets (hs : h.Sound) (ha : h.IsArray a f) (hS : ∀ j, S f.buffer j) (i : Nat)
    (xs : List (Option Value)) : Meets (Path S) (fillDefinedFrom a i xs) h fun _ _ => True := by
  induction xs generalizing h i with
  | nil => exact Meets.pure trivial
  | cons x xs ih =>
    cases x with
    | none => exact ih hs ha (i + 1)
    | some x => exact set_bind hs ha hS i x fun h' hs' ha' => ih hs' ha' (i + 1)

theorem fillFrom_meets (hs : h.Sound) (ha : h.IsArray a f) (hS : ∀ j, S f.buffer j) (i : Nat)
    (xs : List Value) : Meets (Path S) (fillFrom a i xs) h fun _ _ => True := by
  rw [fillFrom_eq]
  exact fillDefinedFrom_meets hs ha hS i _

theorem fillEdgesFrom_meets (hr : Ready S h) (ha : h.IsArray a f) (hS : ∀ j, S f.buffer j) (i : Nat)
    (ns : List Int32) : Meets (Path S) (fillEdgesFrom a i ns) h fun _ _ => True := by
  induction ns generalizing h i with
  | nil => exact Meets.pure trivial
  | cons n ns ih =>
    have hset := ArrayObject.setScalar_meets (S := S) hr (fun hg => by rw [ha.unique hg]; exact hS) i
      .int32 n
    refine Meets.bind hset.ran fun _ h₁ hpath hrun => ?_
    have ha₁ := ArrayObject.setScalar_isArray hr.sound ha i .int32 n
    rw [hrun.1] at ha₁
    exact ih (hr.along hpath) ha₁ (i + 1)

/-- A vector of as many elements as a list has, filled with them. -/
theorem vector_meets {fill : Value → HeapM Unit} {elem : TypeRef} {n : Nat} (hr : Ready S h)
    (hfill : ∀ {a f} {h' : Heap}, Ready S h' → h'.IsArray a f → (∀ j, S f.buffer j) →
      Meets (Path S) (fill a) h' fun _ _ => True) :
    Meets (Path S) (do
      let a ← ArrayObject.newVector elem n
      fill a
      return a : HeapM Value) h fun _ _ => True := by
  refine Meets.bind (ArrayObject.newVector_meets hr elem n) fun a h₁ hpath ha => ?_
  obtain ⟨f, ha⟩ := ha
  refine Meets.bind (hfill (hr.along hpath) ha.array (hr.fresh ha.freshBuffer)) fun _ _ _ _ => ?_
  exact Meets.pure trivial

theorem optionalVector_meets (hr : Ready S h) (values : List (Option Value)) :
    Meets (Path S) (optionalVector values) h fun _ _ => True :=
  vector_meets hr fun hr ha hS => fillDefinedFrom_meets hr.sound ha hS 0 values

theorem edgeVector_meets (hr : Ready S h) (edges : List Int32) :
    Meets (Path S) (edgeVector edges) h fun _ _ => True :=
  vector_meets hr fun hr ha hS => fillEdgesFrom_meets hr ha hS 0 edges

/-- An object is made of what was made before. -/
theorem new_meets (hr : Ready S h) (t : TypeRef) (args : List Value) :
    Meets (Path S) (Record.new t args) h fun _ _ => True :=
  (Record.new_meets hr t args).mono fun _ _ _ _ => trivial

theorem box_bind {y : Value → HeapM Value} (hr : Ready S h) (k : ScalarKind) (x : k.Carrier)
    (hy : ∀ v (h' : Heap), Ready S h' → Meets (Path S) (y v) h' fun _ _ => True) :
    Meets (Path S) (Box.new k x >>= y) h fun _ _ => True :=
  Meets.bind (Box.new_meets hr k x) fun v h' hpath _ => hy v h' (hr.along hpath)

theorem newType_bind {y : Value → HeapM Value} (hr : Ready S h) (t : TypeRef)
    (hy : ∀ v (h' : Heap), Ready S h' → Meets (Path S) (y v) h' fun _ _ => True) :
    Meets (Path S) (Box.newType t >>= y) h fun _ _ => True :=
  Meets.bind (Box.newType_meets hr t) fun v h' hpath _ => hy v h' (hr.along hpath)

theorem encodeNumber_meets (hr : Ready S h) (t : TypeRef) (n : Int64) :
    Meets (Path S) (encodeNumber t n) h fun _ _ => True :=
  box_bind hr .int64 n fun v _ hr => new_meets hr t [v]

theorem encode_meets (hr : Ready S h) (ts : NodeTypes) (n : Node) :
    Meets (Path S) (encode ts n) h fun _ _ => True := by
  cases n with
  | goto label => exact encodeNumber_meets hr ts.goto label
  | line number file =>
    exact box_bind hr .int64 number fun l _ hr => box_bind hr .symbol file fun f _ hr =>
      new_meets hr ts.line [l, f]
  | quote v => exact new_meets hr ts.quote [v]
  | slot index declared =>
    cases declared with
    | none => exact encodeNumber_meets hr ts.slot index
    | some t =>
      exact box_bind hr .int64 index fun i _ hr => newType_bind hr t fun t' _ hr =>
        new_meets hr ts.typedSlot [i, t']
  | global home name => exact box_bind hr .symbol name fun n _ hr => new_meets hr ts.global [home, n]
  | phi edges values =>
    refine Meets.guard fun _ => Meets.bind (edgeVector_meets hr edges) fun es h₁ hp₁ _ => ?_
    have hr₁ := hr.along hp₁
    refine Meets.bind (optionalVector_meets hr₁ values) fun vs h₂ hp₂ _ => ?_
    exact new_meets (hr₁.along hp₂) ts.phi [es, vs]
  | phic values =>
    refine Meets.bind (optionalVector_meets hr values) fun vs h₁ hp₁ _ => ?_
    exact new_meets (hr.along hp₁) ts.phic [vs]
  | upsilon value =>
    cases value with
    | some v => exact new_meets hr ts.upsilon [v]
    | none => exact (Record.newUninit_meets hr ts.upsilon).mono fun _ _ _ _ => trivial
  | pi v t => exact newType_bind hr t fun t' _ hr => new_meets hr ts.pi [v, t']
  | newvar s => exact new_meets hr ts.newvar [s]
  | ssa id => exact encodeNumber_meets hr ts.ssa id
  | expr head args =>
    refine Meets.bind (ArrayObject.newVector_meets hr Builtin.any args.length) fun a h₁ hp₁ ha => ?_
    obtain ⟨f, ha⟩ := ha
    have hr₁ := hr.along hp₁
    refine Meets.bind (fillFrom_meets hr₁.sound ha.array (hr.fresh ha.freshBuffer) 0 args) fun _ h₂ hp₂ _ => ?_
    exact box_bind (hr₁.along hp₂) .symbol head fun h _ hr => new_meets hr ts.expr [h, a]
  | literal v => exact Meets.pure trivial

end Node

namespace Nodes

/-! ## Reading objects -/

theorem optionalField_meets (v : Value) (i : Nat) :
    Meets Learns (optionalField v i) h fun _ _ => True := by
  unfold optionalField
  refine Meets.bind (Record.isDefined_meets v i) fun b h₁ _ _ => Meets.ite (fun _ => ?_) fun _ => ?_
  · exact Meets.bind (Record.readRef_meets v i) fun _ _ _ _ => Meets.pure trivial
  · exact Meets.pure trivial

theorem decodeAs_meets (hs : h.Sound) (ts : NodeTypes) (v : Value) (k : NodeKind) :
    Meets Learns (decodeAs ts v k) h fun _ _ => True := by
  have scalar {h : Heap} (k : ScalarKind) (i : Nat) {y : k.Carrier → HeapM Node}
      (hy : ∀ x (h' : Heap), Meets Learns (y x) h' fun _ _ => True) :
      Meets Learns (Record.readScalar k v i >>= y) h fun _ _ => True :=
    Meets.bind (Record.readScalar_meets k v i) fun x h' _ _ => hy x h'
  have ref {h : Heap} (i : Nat) {y : Value → HeapM Node}
      (hy : ∀ x (h' : Heap), Meets Learns (y x) h' fun _ _ => True) :
      Meets Learns (Record.readRef v i >>= y) h fun _ _ => True :=
    Meets.bind (Record.readRef_meets v i) fun x h' _ _ => hy x h'
  have done {h : Heap} (n : Node) : Meets Learns (pure n : HeapM Node) h fun _ _ => True :=
    Meets.pure trivial
  cases k with
  | goto => exact scalar .int64 0 fun _ _ => done _
  | line => exact scalar .int64 0 fun _ _ => scalar .symbol 1 fun _ _ => done _
  | quote => exact ref 0 fun _ _ => done _
  | slot => exact scalar .int64 0 fun _ _ => done _
  | typedSlot => exact scalar .int64 0 fun _ _ => scalar .dataType 1 fun _ _ => done _
  | global => exact ref 0 fun _ _ => scalar .symbol 1 fun _ _ => done _
  | phi => exact Meets.bind (phiParts_meets hs v) fun _ _ _ _ => done _
  | phic => exact Meets.bind (phicValues_meets hs ts v) fun _ _ _ _ => done _
  | upsilon => exact Meets.bind (optionalField_meets v 0) fun _ _ _ _ => done _
  | pi => exact ref 0 fun _ _ => scalar .dataType 1 fun _ _ => done _
  | newvar => exact ref 0 fun _ _ => done _
  | ssa => exact scalar .int64 0 fun _ _ => done _
  | expr =>
    refine Meets.bind (argumentCount_meets ts v) fun n h₁ hl₁ _ => ?_
    refine Meets.bind (head_meets ts v) fun s h₂ hl₂ _ => ?_
    have hs₂ := (hs.learns hl₁).learns hl₂
    exact Meets.bind (firstArguments_meets hs₂ ts v n) fun _ _ _ _ => done _

theorem decode_meets (hs : h.Sound) (ts : NodeTypes) (v : Value) :
    Meets Learns (decode ts v) h fun _ _ => True := by
  unfold decode
  refine Meets.look_bind fun k _ => ?_
  cases k with
  | some k => exact decodeAs_meets hs ts v k
  | none => exact Meets.pure trivial

end Nodes

end TypedHeap
