import TypedHeap.Proofs.Heap.Nesting
import TypedHeap.Proofs.Heap.Payloads
import TypedHeap.Proofs.Layout.Placement
import TypedHeap.Proofs.Node.Making

/-!
# What is read from node objects

However an object of a node type came about, reading it changes nothing, and what is read from it is there. So all that
a node object can say may be said again, apart from what the makers of nodes check before they make anything.

* `Node.Grounded`: what a node is about is there.
* `Node.WellFormed`: what is checked before an object for a node is made.

Main results: `Node.encode_ends`, `Nodes.decode_asks`, `Nodes.phiParts_of_decode`.
-/

namespace TypedHeap

open TypedHeap.Action (Meets Ends runOn_bind_ok runOn_look runOn_get)
open Heap ArrayObject Layouts

variable {h h' : Heap} {ts : NodeTypes} {a v x : Value} {k : NodeKind} {n : Node} {t : TypeRef} {l : Layout}
  {tt : TypeTable} {α β : Type}

/-! ## Nodes -/

namespace Node

/-- What a node is about is there. -/
def Grounded (ts : NodeTypes) (h : Heap) : Node → Prop
  | .goto _ | .line _ _ | .slot _ _ | .ssa _ => True
  | .quote v | .newvar v | .pi v _ => h.Live v
  | .global home _ => h.typeOf home = .ok Builtin.moduleType
  | .phi _ values | .phic values => ∀ v, some v ∈ values → h.Live v
  | .upsilon value => ∀ v, value = some v → h.Live v
  | .expr _ args => ∀ v ∈ args, h.Live v
  | .literal v => Nodes.kindOf ts h v = .ok none

/-- There is a value for each edge of a join, and types that are named are registered. -/
def WellFormed (tt : TypeTable) : Node → Prop
  | .phi edges values => edges.length = values.length
  | .slot _ (some t) | .pi _ t => tt.contains t = true
  | _ => True

theorem valid_iff : n.Valid ts h ↔ n.Grounded ts h ∧ n.WellFormed h.types := by
  cases n with
  | slot index declared => cases declared <;> exact (and_iff_right trivial).symm
  | phi edges values => exact and_comm
  | pi v t => exact Iff.rfl
  | _ => exact (and_iff_left trivial).symm

/-- It is there for the rest of a run. -/
theorem Grounded.extends (hn : n.Grounded ts h) (he : h.Extends h') : n.Grounded ts h' := by
  cases n with
  | quote v | newvar v | pi v t => exact he.live hn
  | global home name => exact he.typeOf hn
  | phi edges values | phic values => exact fun v hv => he.live (hn v hv)
  | upsilon value => exact fun v hv => he.live (hn v hv)
  | expr head args => exact fun v hv => he.live (hn v hv)
  | literal v =>
    obtain ⟨t, ht, hkind⟩ := bind_eq_ok.1 hn
    exact bind_eq_ok.2 ⟨t, he.typeOf ht, hkind⟩
  | _ => trivial

/-! ## What is checked -/

/-- A new box registers no type. -/
theorem box_sameTypes (k : ScalarKind) (x : k.Carrier) : Meets SameTypes (Box.new k x) h fun _ _ => True := by
  unfold Box.new storeScalar
  refine Meets.bind (allocate_sameTypes k.type 0) fun v h₁ _ _ => ?_
  refine Meets.bind (P := fun _ _ => True) ?_ fun _ _ _ _ => Meets.pure trivial
  refine Meets.bind (P := fun _ _ => True) ?_ fun bs _ _ _ => writeBytes_sameTypes _ bs
  exact .of_runOn rfl rfl fun _ _ => trivial

theorem newType_ends (t : TypeRef) :
    Ends (Box.newType t) h (fun _ _ => h.types.contains t = true) fun _ => True := by
  refine Ends.bind_ok (runOn_get h) (Ends.lift_bind trivial fun d hd => ?_)
  exact ⟨fun _ _ _ => TypeTable.contains_iff.2 ⟨d, hd⟩, fun _ _ _ => trivial⟩

/-- No object is made for a node that is not well formed. -/
theorem encode_ends (ts : NodeTypes) (n : Node) :
    Ends (encode ts n) h (fun _ _ => n.WellFormed h.types) fun _ => True := by
  have rest {α : Type} {x : HeapM α} {h₁ : Heap} {p : Prop} (hp : p) : Ends x h₁ (fun _ _ => p) fun _ => True :=
    ⟨fun _ _ _ => hp, fun _ _ _ => trivial⟩
  cases n with
  | phi edges values => exact Ends.guard (fun _ => trivial) fun hlength => rest (of_not_not hlength)
  | pi v t => exact Ends.bind (newType_ends t) fun _ _ ht => rest ht
  | slot index declared =>
    cases declared with
    | none => exact rest trivial
    | some t =>
      -- The box for the index registers no type, so the other type was registered before.
      have hbox := (Ends.of_meets (box_sameTypes (h := h) .int64 index)).mono (fun _ _ => And.left) fun _ _ => trivial
      refine Ends.bind hbox fun _ h₁ hsame => Ends.bind (newType_ends t) fun _ _ ht => rest ?_
      have hsame : h₁.types = h.types := hsame
      rwa [hsame] at ht
  | _ => exact rest trivial

end Node

namespace Nodes

/-! ## Vectors -/

/-- The same question about each element of a list. -/
theorem mapM_asks {f : α → HeapM β} {P : β → Prop} (as : List α) (hf : ∀ a ∈ as, Meets Eq (f a) h fun b _ => P b) :
    Meets Eq (as.mapM f) h fun bs _ => bs.length = as.length ∧ ∀ b ∈ bs, P b := by
  refine (Meets.mapM as (I := (h = ·)) (P := fun _ b _ => P b) rfl (fun _ _ => Eq.trans)
    (fun _ _ _ _ _ _ hb => hb) fun a ha s hs => ?_).mono fun bs _ _ hbs => ⟨hbs.length_eq.symm, ?_⟩
  · subst hs
    exact hf a ha
  · intro b hb
    obtain ⟨i, hi, rfl⟩ := List.getElem_of_mem hb
    exact (List.forall₂_iff_get.1 hbs).2 i (by rw [hbs.length_eq]; exact hi) hi

theorem optionalElement_asks (hs : h.Sound) (a : Value) (i : Nat) :
    Meets Eq (optionalElement a i) h fun r _ => ∀ x, r = some x → h.Live x := by
  unfold optionalElement
  refine Meets.ask_bind (Meets.attempt (get_asks hs a i)) fun r hr => ?_
  split
  · exact Meets.pure (hr _ rfl)
  · exact Meets.pure nofun
  · exact Meets.throw _

theorem optionalElements_asks (hs : h.Sound) (a : Value) : Meets Eq (optionalElements a) h fun vs _ =>
    ArrayObject.length h a = .ok vs.length ∧ ∀ x, some x ∈ vs → h.Live x := by
  refine Meets.look_bind fun n hn => ?_
  refine (mapM_asks _ fun i _ => optionalElement_asks hs a i).mono fun vs _ _ hvs => ⟨?_, fun x hx => hvs.2 _ hx x rfl⟩
  rw [hn, hvs.1, List.length_range]

theorem edges_asks (hs : h.Sound) (a : Value) :
    Meets Eq (edges a) h fun es _ => ArrayObject.length h a = .ok es.length := by
  have helement (i : Nat) : Meets Eq (getScalar .int32 a i) h fun _ _ => True := by
    refine Meets.ask_bind (get_asks hs a i) fun d _ => ?_
    exact Meets.look fun _ _ => trivial
  refine Meets.look_bind fun n hn => ?_
  refine (mapM_asks (P := fun _ => True) _ fun i _ => helement i).mono fun es _ _ hes => ?_
  rw [hn, hes.1, List.length_range]

/-! ## Parts of nodes -/

section Fields

variable (hs : h.Sound) (ht : h.typeOf v = .ok t) (hl : h.registry.layouts.find? t = some l)

include hs ht hl

/-- A field that is read as a reference refers to an object. -/
theorem readRef_live (i : Nat) : Meets Eq (Record.readRef v i) h fun x _ => h.Live x :=
  (Record.readRef_asks hs ht hl i).mono fun _ _ _ hx => by
    obtain ⟨-, e, -, hisa⟩ := hx
    obtain ⟨s, hs, -⟩ := isa_eq_ok.1 hisa
    exact live_of_typeOf hs

theorem optionalField_asks (i : Nat) : Meets Eq (optionalField v i) h fun r _ => ∀ x, r = some x → h.Live x := by
  unfold optionalField
  refine Meets.ask_bind (Record.isDefined_asks hs ht hl i) fun defined _ => ?_
  refine Meets.ite (fun _ => Meets.ask_bind (readRef_live hs ht hl i) fun x hx => ?_) fun _ => Meets.pure nofun
  exact Meets.pure fun y hy => by cases hy; exact hx

/-- The parts of a join are as many as there are elements in the vectors in its fields. -/
theorem phiParts_asks : Meets Eq (phiParts v) h fun p _ => (∃ es vs,
    (Record.read v 0).runOn h = (.ok (.ref es), h) ∧ (Record.read v 1).runOn h = (.ok (.ref vs), h) ∧
    ArrayObject.length h es = .ok p.1.length ∧ ArrayObject.length h vs = .ok p.2.length) ∧
    ∀ x, some x ∈ p.2 → h.Live x := by
  unfold phiParts
  refine Meets.ask_bind (Record.readRef_asks hs ht hl 0) fun es hes => ?_
  refine Meets.ask_bind (edges_asks hs es) fun edges hedges => ?_
  refine Meets.ask_bind (Record.readRef_asks hs ht hl 1) fun vs hvs => ?_
  refine Meets.ask_bind (optionalElements_asks hs vs) fun values hvalues => ?_
  exact Meets.pure ⟨⟨es, vs, hes.1, hvs.1, hedges, hvalues.1⟩, hvalues.2⟩

theorem phicValues_asks (ts : NodeTypes) : Meets Eq (phicValues ts v) h fun vs _ => ∀ x, some x ∈ vs → h.Live x := by
  unfold phicValues
  refine Meets.look_bind fun _ _ => Meets.ask_bind (Record.readRef_asks hs ht hl 0) fun vs _ => ?_
  exact (optionalElements_asks hs vs).mono fun _ _ _ hvalues => hvalues.2

theorem head_asks (ts : NodeTypes) : Meets Eq (head ts v) h fun _ _ => True :=
  Meets.look_bind fun _ _ => Record.readScalar_asks hs ht hl .symbol headField

theorem argumentVector_asks (ts : NodeTypes) : Meets Eq (argumentVector ts v) h fun _ _ => True := by
  unfold argumentVector
  refine Meets.look_bind fun _ _ => Meets.bind (Record.read_asks hs ht hl argumentsField) fun d _ _ _ => ?_
  split
  · exact Meets.pure trivial
  · exact Meets.throw _

theorem argumentCount_asks (ts : NodeTypes) : Meets Eq (argumentCount ts v) h fun _ _ => True :=
  Meets.bind (argumentVector_asks hs ht hl ts) fun _ _ _ _ => Meets.look fun _ _ => trivial

theorem argument_asks (ts : NodeTypes) (i : Nat) : Meets Eq (argument ts v i) h fun x _ => h.Live x := by
  unfold argument vectorWith
  refine Meets.ask_bind (P := fun _ _ => True) ?_ fun args _ => ?_
  · refine Meets.bind (argumentVector_asks hs ht hl ts) fun args _ _ _ => ?_
    exact Meets.look_bind fun _ _ => Meets.guard fun _ => Meets.pure trivial
  refine Meets.ask_bind (get_asks hs args i) fun d hd => ?_
  cases hx : d.ref? with
  | some x => exact Meets.pure (hd x hx)
  | none => exact Meets.throw _

end Fields

/-! ## Nodes -/

/-- Objects of node types have layouts that are remembered. -/
theorem exists_layout_of_kindOf (hs : h.Sound) (hreg : ts.Registered h.types) (hk : kindOf ts h v = .ok (some k)) :
    ∃ l, h.typeOf v = .ok (ts.ofKind k) ∧ h.registry.layouts.find? (ts.ofKind k) = some l := by
  obtain ⟨t, ht, hkind⟩ := bind_eq_ok.1 hk
  obtain rfl := NodeTypes.ofKind_of_kindOf? (Except.ok.inj hkind)
  obtain ⟨c, hc, hstruct, -⟩ := hreg.exists_struct k
  obtain ⟨l, hl⟩ := hs.exists_layout ht hc (by rw [hstruct]; rfl)
  exact ⟨l, ht, hl⟩

/-- Globals refer to modules, and there is no type below that of modules. -/
theorem readRef_global (hs : h.Sound) (hbelow : h.types.BelowAbstract) (hreg : ts.Registered h.types)
    (hk : kindOf ts h v = .ok (some .global)) :
    Meets Eq (Record.readRef v 0) h fun x _ => h.typeOf x = .ok Builtin.moduleType := by
  obtain ⟨l, ht, hl⟩ := exists_layout_of_kindOf hs hreg hk
  obtain ⟨c, hc, hstruct, -, hfields⟩ := hreg.exists_struct .global
  refine (Record.readRef_asks hs ht hl 0).mono fun x _ _ hx => ?_
  obtain ⟨-, e, he, hisa⟩ := hx
  -- The first field is declared to be a module.
  have hall := hs.registry.map_fields hc hstruct hfields hl
  have hfirst : (l.fields.map fun f => (f.name, f.type))[0]? = some (e.name, e.type) := by
    rw [List.getElem?_map, Layout.field_eq_ok.1 he]
    rfl
  rw [hall] at hfirst
  have htype : e.type = Builtin.moduleType := (congrArg Prod.snd (Option.some.inj hfirst)).symm
  obtain ⟨t, ht, hsub⟩ := isa_eq_ok.1 hisa
  obtain ⟨d, hd, hkind⟩ := hs.kind_of_object ht
  rw [htype] at hsub
  rw [ht, TypeTable.eq_of_isa hs.registry.types hbelow (hs.builtin rfl) (by decide) hd hkind hsub]

theorem decodeAs_asks (hs : h.Sound) (hbelow : h.types.BelowAbstract) (hreg : ts.Registered h.types)
    (hk : kindOf ts h v = .ok (some k)) :
    Meets Eq (decodeAs ts v k) h fun n _ => n.kind? = some k ∧ n.Grounded ts h := by
  obtain ⟨l, ht, hl⟩ := exists_layout_of_kindOf hs hreg hk
  have scalar {Q : Node → Prop} (k : ScalarKind) (i : Nat) {y : k.Carrier → HeapM Node}
      (hy : ∀ x, Meets Eq (y x) h fun n _ => Q n) :
      Meets Eq (Record.readScalar k v i >>= y) h fun n _ => Q n :=
    Meets.ask_bind (Record.readScalar_asks hs ht hl k i) fun x _ => hy x
  cases k with
  | goto => exact scalar .int64 0 fun _ => Meets.pure ⟨rfl, trivial⟩
  | line => exact scalar .int64 0 fun _ => scalar .symbol 1 fun _ => Meets.pure ⟨rfl, trivial⟩
  | quote =>
    refine Meets.ask_bind (readRef_live hs ht hl 0) fun x hx => ?_
    exact Meets.pure ⟨rfl, hx⟩
  | slot => exact scalar .int64 0 fun _ => Meets.pure ⟨rfl, trivial⟩
  | typedSlot => exact scalar .int64 0 fun _ => scalar .dataType 1 fun _ => Meets.pure ⟨rfl, trivial⟩
  | global =>
    refine Meets.ask_bind (readRef_global hs hbelow hreg hk) fun x hx => ?_
    exact scalar .symbol 1 fun _ => Meets.pure ⟨rfl, hx⟩
  | phi =>
    refine Meets.ask_bind (phiParts_asks hs ht hl) fun p hp => ?_
    exact Meets.pure ⟨rfl, hp.2⟩
  | phic =>
    refine Meets.ask_bind (phicValues_asks hs ht hl ts) fun vs hvs => ?_
    exact Meets.pure ⟨rfl, hvs⟩
  | upsilon =>
    refine Meets.ask_bind (optionalField_asks hs ht hl 0) fun x hx => ?_
    exact Meets.pure ⟨rfl, hx⟩
  | pi =>
    refine Meets.ask_bind (readRef_live hs ht hl 0) fun x hx => ?_
    exact scalar .dataType 1 fun _ => Meets.pure ⟨rfl, hx⟩
  | newvar =>
    refine Meets.ask_bind (readRef_live hs ht hl 0) fun x hx => ?_
    exact Meets.pure ⟨rfl, hx⟩
  | ssa => exact scalar .int64 0 fun _ => Meets.pure ⟨rfl, trivial⟩
  | expr =>
    refine Meets.ask_bind (argumentCount_asks hs ht hl ts) fun n _ => ?_
    refine Meets.ask_bind (head_asks hs ht hl ts) fun s _ => ?_
    refine Meets.ask_bind (mapM_asks _ fun i _ => argument_asks hs ht hl ts i) fun args hargs => ?_
    exact Meets.pure ⟨rfl, hargs.2⟩

/-- Reading an object as a node changes nothing, and what the node is about is there. -/
theorem decode_asks (hs : h.Sound) (hbelow : h.types.BelowAbstract) (hreg : ts.Registered h.types) (v : Value) :
    Meets Eq (decode ts v) h fun n _ => kindOf ts h v = .ok n.kind? ∧ n.Grounded ts h := by
  unfold decode
  refine Meets.look_bind fun k hk => ?_
  cases k with
  | some k =>
    refine (decodeAs_asks hs hbelow hreg hk).mono fun n _ _ hn => ⟨?_, hn.2⟩
    rw [hn.1]
    exact hk
  | none => exact Meets.pure ⟨hk, hk⟩

/-! ## Joins -/

section Joins

variable {es : List Int32} {vs : List (Option Value)}

theorem runOn_decode_phi (hk : kindOf ts h v = .ok (some .phi)) (hparts : (phiParts v).runOn h = (.ok (es, vs), h)) :
    (decode ts v).runOn h = (.ok (.phi es vs), h) := by
  unfold decode
  rw [runOn_bind_ok (by rw [runOn_look, hk])]
  exact runOn_bind_ok hparts

theorem runOn_phiOperands (hk : kindOf ts h v = .ok (some .phi)) (hparts : (phiParts v).runOn h = (.ok (es, vs), h)) :
    (phiOperands ts v).runOn h = (.ok (es.zip vs), h) :=
  (runOn_expectKind hk).trans (runOn_bind_ok hparts)

/-- Only joins have operands, and their parts are known by then. -/
theorem phiOperands_asks (hs : h.Sound) (hreg : ts.Registered h.types) (v : Value) :
    Meets Eq (phiOperands ts v) h fun _ _ =>
      kindOf ts h v = .ok (some .phi) ∧ ∃ es vs, (phiParts v).runOn h = (.ok (es, vs), h) := by
  refine Meets.look_bind fun _ hexpect => ?_
  have hk := expectKind_eq_ok.1 hexpect
  obtain ⟨l, ht, hl⟩ := exists_layout_of_kindOf hs hreg hk
  exact Meets.ask_bind (phiParts_asks hs ht hl).ran fun p hp => Meets.pure ⟨hk, p.1, p.2, hp.1⟩

/-- An object that is read as a join has the parts of the join. -/
theorem phiParts_of_decode (hs : h.Sound) (hbelow : h.types.BelowAbstract) (hreg : ts.Registered h.types)
    (hdecode : ((decode ts v).runOn h).1 = .ok (.phi es vs)) :
    kindOf ts h v = .ok (some .phi) ∧ (phiParts v).runOn h = (.ok (es, vs), h) := by
  obtain ⟨hk, -⟩ := (decode_asks hs hbelow hreg v).answer _ hdecode
  obtain ⟨l, ht, hl⟩ := exists_layout_of_kindOf hs hreg hk
  have hparts : Meets Eq (decodeAs ts v .phi) h fun n _ => ∃ p, n = .phi p.1 p.2 ∧ (phiParts v).runOn h = (.ok p, h) :=
    Meets.ask_bind (phiParts_asks hs ht hl).ran fun p hp => Meets.pure ⟨p, rfl, hp.1⟩
  unfold decode at hdecode
  rw [runOn_bind_ok (by rw [runOn_look, hk])] at hdecode
  obtain ⟨p, heq, hrun⟩ := hparts.answer _ hdecode
  cases heq
  exact ⟨hk, hrun⟩

end Joins

end Nodes

end TypedHeap
