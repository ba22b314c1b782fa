import TypedHeap.Proofs.Node.Making
import TypedHeap.Proofs.Object.ScalarFields

/-!
# Expressions that change

An expression is an object with a head, and a vector of its own for the arguments, which moves to another buffer when
it outgrows the one it has. Whoever changes one expression touches none of the objects of another one.

* `Nodes.Expression`, `Nodes.Revision`: a head and arguments, and what may be done to them.
* `Nodes.PartOf`: the objects that an expression consists of.
* `Nodes.Expresses`: an object is an expression with a given head and arguments.
* `Nodes.Answers`: what such an expression answers.

Main results: `Expresses.answers`, `Expresses.keeps`, `Expresses.apart`, `setHead_ends`, `encodeExpr_ends`.
-/

namespace TypedHeap

open TypedHeap.Action (Ends runOn_bind_ok runOn_bind_error runOn_look runOn_pure)
open Heap ArrayObject

variable {h h' : Heap} {ts : NodeTypes} {e w a b v y : Value} {f : ArrayInfo} {xs : List (Option Datum)}
  {d : Datum} {i : Nat} {S : Value → Nat → Prop}

namespace ArrayObject

/-- What is stored in a vector of anything are references. -/
theorem stores_any (hs : h.Sound) (hd : h.Stores Builtin.any y d) : d = .ref y := by
  obtain ⟨p, h₁, hrun, -, rfl⟩ := elementStorage_any_yields hs
  cases hd with
  | reference => rfl
  | bits stored inPlace =>
    cases hrun.symm.trans stored
    exact absurd rfl inPlace

/-- What is no object is not stored. -/
theorem set_dead (hv : h.VectorOf a f xs) (hi : i < xs.length) (hy : ¬h.Live y) :
    ((set a i y).runOn h).1 = .error (.invalidTag y.offset .notAnObject) := by
  have hi : i < f.length := by rwa [← hv.holds.length]
  have hindex : (liftM (f.checkIndex i) : HeapM Unit).runOn h = (.ok (), h) := by
    rw [Action.runOn_lift, ArrayInfo.checkIndex_eq_ok.2 hi]
  unfold set
  rw [runOn_bind_ok (by rw [runOn_look, hv.sound.info_iff.2 hv.array]), runOn_bind_ok hindex]
  cases ht : h.typeOf y with
  | ok t => exact absurd (live_of_typeOf ht) hy
  | error err =>
    rw [runOn_bind_error (by rw [runOn_look, ht]), hv.sound.typeOf_raises y err ht]

end ArrayObject

namespace Nodes

/-! ## Expressions -/

/-- The head and the arguments of an expression. -/
structure Expression where
  head : Symbol
  args : List Value

/-- What may be done to an expression. -/
inductive Revision
  | setHead (s : Symbol)
  | setArgument (i : Nat) (x : Value)
  | pushArgument (x : Value)

/-- What it makes of the head and the arguments. -/
def Revision.apply : Revision → Expression → Expression
  | setHead s, x => { x with head := s }
  | setArgument i y, x => { x with args := x.args.set i y }
  | pushArgument y, x => { x with args := x.args ++ [y] }

variable {x z : Expression}

/-- The objects that an expression consists of. -/
inductive PartOf (ts : NodeTypes) (h : Heap) (e : Value) : Value → Prop
  | record : PartOf ts h e e
  | arguments {a : Value} (of : ArgumentsOf ts h e a) : PartOf ts h e a
  | buffer {a : Value} {f : ArrayInfo} (of : ArgumentsOf ts h e a) (info : ArrayObject.info h a = .ok f) :
    PartOf ts h e f.buffer

/-- The object `e` is an expression, and the vector `a` holds its arguments. -/
structure Expresses (ts : NodeTypes) (h : Heap) (e a : Value) (x : Expression) : Prop where
  record : h.RecordOf e (ts.ofKind .expr) [.scalar .symbol x.head, .ref (some a)]
  vector : IsVector h a Builtin.any
  lists : Lists h a (x.args.map fun y => some (.ref y))

/-- What an expression with a head and arguments answers, and which of its arguments may be set. -/
structure Answers (ts : NodeTypes) (h : Heap) (e : Value) (x : Expression) : Prop where
  decode : (Nodes.decode ts e).runOn h = (.ok (.expr x.head x.args), h)
  count : (argumentCount ts e).runOn h = (.ok x.args.length, h)
  argument : ∀ i y, ((Nodes.argument ts e i).runOn h).1 = .ok y ↔ x.args[i]? = some y
  argumentRefused : ∀ i, ((Nodes.argument ts e i).runOn h).1 =
    .error (.indexOutOfRange .argument i x.args.length) ↔ x.args.length ≤ i
  /-- An argument is exchanged for any object. -/
  set : ∀ i y, ((setArgument ts e i y).runOn h).1 = .ok () ↔ i < x.args.length ∧ h.Live y
  setRefused : ∀ i y, ((setArgument ts e i y).runOn h).1 =
    .error (.indexOutOfRange .argument i x.args.length) ↔ x.args.length ≤ i

namespace Expresses

theorem represents (he : Expresses ts h e a x) : (Node.expr x.head x.args).Represents ts h e :=
  ⟨a, he.record, he.lists⟩

theorem exists_vector (he : Expresses ts h e a x) (hs : h.Sound) :
    ∃ f, f.elem = Builtin.any ∧ h.VectorOf a f (x.args.map fun y => some (.ref y)) :=
  he.vector.vectorOf hs he.lists

section Parts

variable (he : Expresses ts h e a x) (hreg : ts.Registered h.types) (hs : h.Sound)

include he hreg hs

theorem argumentsOf : ArgumentsOf ts h e a := argumentsOf_of_record hreg hs he.record

/-- An expression is no array, and no buffer of one. -/
theorem ne_array (hb : h.IsArray b f) : e ≠ b ∧ e ≠ f.buffer := by
  obtain ⟨c, hc, hkind, -⟩ := hreg.exists_struct .expr
  have hne {v : Value} {t : TypeRef} {d : Descriptor} (ht : h.typeOf v = .ok t) (hd : h.types.descriptor t = .ok d)
      (hother : d.kind ≠ .struct) : e ≠ v := by
    rintro rfl
    cases he.record.type.symm.trans ht
    cases hc.symm.trans hd
    exact hother hkind
  obtain ⟨rank, t, d, n, ht, hd, harray, -⟩ := hb.type
  exact ⟨hne ht hd (by rw [harray]; decide), hne (hs.arrays hb).body.buffer hs.descriptor_buffer (by decide)⟩

theorem part_iff : PartOf ts h e v ↔ v = e ∨ v = a ∨ ∃ f, h.IsArray a f ∧ v = f.buffer := by
  have hof := he.argumentsOf hreg hs
  constructor
  · intro hpart
    cases hpart with
    | record => exact .inl rfl
    | arguments of => exact .inr (.inl (Except.ok.inj (of.symm.trans hof)))
    | buffer of info =>
      cases of.symm.trans hof
      exact .inr (.inr ⟨_, hs.info_iff.1 info, rfl⟩)
  · rintro (rfl | rfl | ⟨f, hf, rfl⟩)
    · exact .record
    · exact .arguments hof
    · exact .buffer hof (hs.info_iff.2 hf)

theorem live (hv : PartOf ts h e v) : h.Live v := by
  rcases (he.part_iff hreg hs).1 hv with rfl | rfl | ⟨f, hf, rfl⟩
  · exact live_of_typeOf he.record.type
  · obtain ⟨f, -, hf⟩ := he.exists_vector hs
    exact hf.array.live
  · exact live_of_typeOf (hs.arrays hf).body.buffer

/-- Expressions with vectors of their own have no object in common. -/
theorem apart (hw : Expresses ts h w b z) (hne : e ≠ w) (hvectors : a ≠ b) (he' : PartOf ts h e v) :
    ¬PartOf ts h w v := by
  obtain ⟨f, -, hf⟩ := he.exists_vector hs
  obtain ⟨g, -, hg⟩ := hw.exists_vector hs
  have hbuffers : f.buffer ≠ g.buffer := fun heq => by
    rcases hs.sharing hg.array hf.array heq with hsame | hshares
    · exact hvectors hsame
    · have hshared := hshares.left
      rw [hg.unshared] at hshared
      cases hshared
  rw [he.part_iff hreg hs] at he'
  rw [hw.part_iff hreg hs]
  rcases he' with rfl | rfl | ⟨f', hf', rfl⟩
  · rintro (heq | heq | ⟨g', hg', heq⟩)
    · exact hne heq
    · exact (he.ne_array hreg hs hg.array).1 heq
    · exact (he.ne_array hreg hs hg').2 heq
  · rintro (heq | heq | ⟨g', hg', heq⟩)
    · exact (hw.ne_array hreg hs hf.array).1 heq.symm
    · exact hvectors heq
    · exact hs.ne_buffer (hs.arrays hf.array).type (hs.arrays hg').body.buffer heq
  · rintro (heq | heq | ⟨g', hg', heq⟩)
    · exact (hw.ne_array hreg hs hf').2 heq.symm
    · exact hs.ne_buffer (hs.arrays hg.array).type (hs.arrays hf').body.buffer heq.symm
    · cases hf.array.unique hf'
      cases hg.array.unique hg'
      exact hbuffers heq

/-- An expression keeps its head and its arguments while nobody writes to one of its objects. -/
theorem keeps (hs' : h'.Sound) (hk : Keeps S h h') (hS : ∀ v, PartOf ts h e v → ∀ k, ¬S v k)
    (hgrows : h.symbols.Grows h'.symbols) : Expresses ts h' e a x := by
  simp only [he.part_iff hreg hs] at hS
  obtain ⟨f, hf, hv⟩ := he.exists_vector hs
  have hv' := hv.keeps hs' hk (hS a (.inr (.inl rfl))) (hS f.buffer (.inr (.inr ⟨f, hv.array, rfl⟩)))
  exact ⟨he.record.keeps hs hk (hS e (.inl rfl)) hgrows, hf ▸ hv'.isVector, hv'.lists⟩

end Parts

/-! ## Answers -/

section Answers

variable (he : Expresses ts h e a x) (hreg : ts.Registered h.types) (hs : h.Sound)

include he hreg hs

theorem runOn_vectorWith (i : Nat) : (vectorWith ts e i).runOn h =
    (if i < x.args.length then .ok a else .error (.indexOutOfRange .argument i x.args.length), h) := by
  have hrun := Nodes.runOn_vectorWith hs (he.argumentsOf hreg hs) he.lists i
  rwa [List.length_map] at hrun

theorem runOn_argument (i : Nat) : ((argument ts e i).runOn h).1 =
    if hi : i < x.args.length then .ok x.args[i] else .error (.indexOutOfRange .argument i x.args.length) := by
  have hvector := he.runOn_vectorWith hreg hs i
  by_cases hi : i < x.args.length
  · obtain ⟨r, hrun, hr⟩ := Nodes.runOn_argument hs (he.argumentsOf hreg hs) he.lists i
    rw [List.getElem?_map, List.getElem?_eq_getElem hi] at hr
    rw [dif_pos hi, hrun]
    cases r with
    | error err => cases hr
    | ok y =>
      cases hr
      rfl
  · rw [if_neg hi] at hvector
    unfold argument
    rw [dif_neg hi, runOn_bind_error hvector]

open Classical in
/-- Which arguments may be set, and why others may not. -/
theorem runOn_setArgument (i : Nat) (y : Value) : ((setArgument ts e i y).runOn h).1 =
    if i < x.args.length then
      if h.Live y then .ok () else .error (.invalidTag y.offset .notAnObject)
    else .error (.indexOutOfRange .argument i x.args.length) := by
  have hvector := he.runOn_vectorWith hreg hs i
  obtain ⟨f, hf, hv⟩ := he.exists_vector hs
  unfold setArgument
  by_cases hi : i < x.args.length
  · rw [if_pos hi] at hvector
    rw [if_pos hi, runOn_bind_ok hvector]
    have hin : i < (x.args.map fun y => some (Datum.ref y)).length := by rwa [List.length_map]
    by_cases hy : h.Live y
    · have hstorage : f.flags.storage = .references :=
        storage_eq hv.body hs.registry (by rw [hf]; exact elementStorage_any_yields hs)
      obtain ⟨_, h₁, hrun, -⟩ := set_yields hv hin hstorage (hf ▸ (offers_any hs hy).isa)
      rw [if_pos hy, hrun]
    · rw [if_neg hy, set_dead hv hin hy]
  · rw [if_neg hi] at hvector
    rw [if_neg hi, runOn_bind_error hvector]

theorem answers : Answers ts h e x where
  decode := he.represents.runOn_decode hs hreg
  count := by
    have hcount := runOn_argumentCount hs (he.argumentsOf hreg hs) he.lists
    rwa [List.length_map] at hcount
  argument i y := by
    rw [he.runOn_argument hreg hs]
    split
    · rename_i hi
      rw [List.getElem?_eq_getElem hi, Except.ok.injEq, Option.some.injEq]
    · rename_i hi
      rw [List.getElem?_eq_none (Nat.le_of_not_lt hi)]
      exact ⟨nofun, nofun⟩
  argumentRefused i := by
    rw [he.runOn_argument hreg hs]
    split
    · rename_i hi
      exact ⟨nofun, fun hle => absurd hi (Nat.not_lt.2 hle)⟩
    · rename_i hi
      exact ⟨fun _ => Nat.le_of_not_lt hi, fun _ => rfl⟩
  set i y := by
    rw [he.runOn_setArgument hreg hs]
    split
    · rename_i hi
      split
      · rename_i hy
        exact ⟨fun _ => ⟨hi, hy⟩, fun _ => rfl⟩
      · rename_i hy
        exact ⟨nofun, fun hboth => absurd hboth.2 hy⟩
    · rename_i hi
      exact ⟨nofun, fun hboth => absurd hboth.1 hi⟩
  setRefused i y := by
    rw [he.runOn_setArgument hreg hs]
    split
    · rename_i hi
      refine ⟨fun herror => ?_, fun hle => absurd hi (Nat.not_lt.2 hle)⟩
      split at herror <;> cases herror
    · rename_i hi
      exact ⟨fun _ => Nat.le_of_not_lt hi, fun _ => rfl⟩

end Answers

end Expresses

/-! ## Changes -/

/-- A new head leaves the arguments alone. -/
theorem setHead_ends (he : Expresses ts h e a x) (hreg : ts.Registered h.types) (ho : h.Orderly) (s : Symbol) :
    Ends (setHead ts e s) h (fun _ h' => Expresses ts h' e a { x with head := s }) fun h' => h' = h := by
  have hs := ho.sound
  obtain ⟨c, hc, hkind, hmutable, -⟩ := hreg.exists_struct .expr
  have hmutable : h.registry.isMutable (ts.ofKind .expr) = .ok true := by
    rw [Registry.isMutable, show h.registry.table.descriptor (ts.ofKind .expr) = .ok c from hc]
    exact congrArg Except.ok hmutable
  obtain ⟨l, field, hl, hfield, hsuits, -⟩ := he.record.exists_field (i := headField) rfl
  have hwrite := Record.writeScalar_sets (k := .symbol) (x := s) hs ho.keys he.record.type hmutable hl
    (Layout.field_eq_ok.1 hfield) hsuits
  refine Ends.congr (runOn_expectKind (he.record.kindOf hreg)) (hwrite.mono (fun _ h' hset => ?_) fun _ => id)
  obtain ⟨f, hf, hv⟩ := he.exists_vector hs
  obtain ⟨hvector, hbuffer⟩ := he.ne_array hreg hs hv.array
  have hv' := hv.keeps hset.sound hset.rewrites.keeps (fun _ hin => hvector hin.1.symm) fun _ hin => hbuffer hin.1.symm
  exact ⟨he.record.set hs hl (Layout.field_eq_ok.1 hfield) hsuits hset, hf ▸ hv'.isVector, hv'.lists⟩

/-! ## New expressions -/

/-- Values that were put into a vector, one after the other, are its elements. By induction on the values that are
left. -/
theorem fillFrom_ends (ds : List (Option Datum)) {xs : List Value} (helem : f.elem = Builtin.any)
    (hv : h.VectorOf a f (ds ++ List.replicate xs.length none)) (hS : ∀ j, S f.buffer j) :
    Ends (Node.fillFrom a ds.length xs) h (fun _ h' => Path S h h' ∧
      h'.VectorOf a f (ds ++ xs.map fun y => some (.ref y))) fun _ => True := by
  induction xs generalizing h ds with
  | nil => exact .of_ok (runOn_pure _ h) ⟨.refl, hv⟩
  | cons x xs ih =>
    have hmeets := ArrayObject.set_meets (S := S) (a := a) hv.sound
      (fun ha j => by cases ha.unique hv.array; exact hS j) ds.length x
    refine Ends.bind ((Ends.of_meets hmeets).and (set_vector hv ds.length x)).answers fun _ h₁ hdone => ?_
    obtain ⟨⟨hpath, -⟩, -, d, hd, hv₁⟩ := hdone
    rw [helem] at hd
    obtain rfl := stores_any hv₁.sound hd
    rw [List.length_cons, Node.set_blank] at hv₁
    have hrest := ih (ds ++ [some (.ref x)]) hv₁
    rw [List.length_append, List.append_assoc] at hrest
    exact hrest.mono (fun _ h₂ hdone => ⟨hpath.trans hdone.1, hdone.2⟩) fun _ => id

/-- A new vector takes all of the values. -/
theorem newArguments_ends (ho : h.Orderly) (hreg : ts.Registered h.types) (xs : List Value) :
    Ends (do let a ← newVector Builtin.any xs.length; Node.fillFrom a 0 xs; return a : HeapM Value) h
      (fun a h' => Path (fun w _ => ¬h.Live w) h h' ∧ ¬h.Live a ∧ h'.typeOf a = .ok ts.anyVector ∧
        ∃ f, f.elem = Builtin.any ∧ h'.VectorOf a f (xs.map fun y => some (.ref y))) fun _ => True := by
  have hmeets := newVector_meets (S := fun w _ => ¬h.Live w) ⟨ho.sound, fun hv _ => hv⟩ Builtin.any xs.length
  have hnew := (Ends.of_meets hmeets).answers.and (newVector_typed ho.sound hreg.anyVector xs.length)
  refine Ends.bind hnew.answers fun a h₁ hdone => ?_
  obtain ⟨⟨hpath, f, harray⟩, htype⟩ := hdone
  have hs₁ := hpath.sound ho.sound
  obtain ⟨blank, hblank, hv⟩ := harray.vectorOf hs₁
  obtain rfl : blank = none := default_eq_none (elementStorage_any_yields hs₁) hblank
  have hfill := fillFrom_ends (S := fun w _ => ¬h.Live w) [] harray.elem hv fun _ => harray.freshBuffer
  refine Ends.bind hfill.answers fun _ h₂ hdone => ?_
  obtain ⟨hpath', hv'⟩ := hdone
  exact .of_ok (runOn_pure a h₂)
    ⟨hpath.trans hpath', harray.fresh, (hpath'.keeps hs₁).typeOf htype, f, harray.elem, hv'⟩

/-- A new expression has the head and the arguments that it was made of, and its vector is new too. -/
theorem encodeExpr_ends (ho : h.Orderly) (hreg : ts.Registered h.types) (x : Expression) :
    Ends (Node.encode ts (.expr x.head x.args)) h
      (fun e h' => ¬h.Live e ∧ ∃ a, ¬h.Live a ∧ Expresses ts h' e a x) fun _ => True := by
  refine Ends.congr (Action.runOn_regroup _ _ _ h).symm ?_
  refine Ends.bind (newArguments_ends ho hreg x.args).answers fun a h₁ hdone => ?_
  obtain ⟨hpath₁, hfresh, htype, f, helem, hv⟩ := hdone
  have ho₁ := ho.along hpath₁
  have hbox := Box.new_meets (S := fun w _ => ¬h₁.Live w) ⟨ho₁.sound, fun hdead _ => hdead⟩ .symbol x.head
  refine Ends.bind (Ends.of_meets hbox).answers fun b h₂ hdone => ?_
  obtain ⟨hpath₂, -, -, hencodes⟩ := hdone
  have ho₂ := ho₁.along hpath₂
  have hk₂ := hpath₂.keeps ho₁.sound
  have hv₂ := hv.stays ho₂.sound hk₂
  have hreg₂ : ts.Registered h₂.types :=
    hreg.extends ((hpath₁.keeps ho.sound).registry.types.trans hk₂.registry.types)
  have htypes := ho₂.sound.registry.types
  obtain ⟨c, hc, hkind, -, hfields⟩ := hreg₂.exists_struct .expr
  have hhead := (boxes_of_encodes hencodes ho₂.sound ho₂.keys).offers
  have hself := offers_self (hk₂.typeOf htype) (Layouts.ofType?_array htypes hreg₂.anyVector.stands)
  have hitems : List.Forall₂ (fun p i => h₂.Offers p.2 i.1 i.2) (NodeKind.expr.fields ts.anyVector ts.int32Vector)
      [(b, .scalar .symbol x.head), (a, .ref (some a))] := .cons hhead (.cons hself .nil)
  have hrecord := Record.new_ends ho₂ hc hkind hfields (hreg₂.simple htypes .expr) hitems
  have hmeets := Record.new_meets (S := fun w _ => ¬h₂.Live w) ⟨ho₂.sound, fun hdead _ => hdead⟩ (ts.ofKind .expr)
    [b, a]
  refine ((Ends.of_meets hmeets).answers.and hrecord).mono (fun e h₃ hdone => ?_) fun _ _ => trivial
  obtain ⟨⟨hpath₃, -⟩, hdead, hr⟩ := hdone
  have hv₃ := hv₂.stays (hpath₃.sound ho₂.sound) (hpath₃.keeps ho₂.sound)
  refine ⟨fun hlive => hdead ?_, a, hfresh, hr, helem ▸ hv₃.isVector, hv₃.lists⟩
  exact hk₂.live ((hpath₁.keeps ho.sound).live hlive)

end Nodes
end TypedHeap
