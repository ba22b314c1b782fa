import TypedHeap.Proofs.Array.Filling
import TypedHeap.Proofs.Node.Represents

/-!
# Making node objects

The object of a node is made in a fixed order: first the vectors and the boxes that it refers to, then the record
itself. Each of them is there for the next one, so an object is made whenever there is room for all of them.

* `NodeTypes.size`: the bytes that a node takes.
* `Node.Valid`: what a node is about is there.
* `Node.demand`: what is made for a node.

Main result: `Node.encode_makes`.
-/

namespace TypedHeap

open TypedHeap.Action (Yields)
open Heap ArrayObject Layouts

variable {h h' : Heap} {ts : NodeTypes} {a : Value} {n : Node} {k : NodeKind} {tt : TypeTable} {f : ArrayInfo}
  {d : Demand}

namespace NodeTypes

/-- The bytes that the fields of a node take. -/
def size (ts : NodeTypes) (k : NodeKind) : Nat :=
  (simpleLayout (k == .expr) (k.fields ts.anyVector ts.int32Vector)).size

namespace Registered

theorem structFields_eq {c : Descriptor} (hfamily : c.family = (k.declaration ts.anyVector ts.int32Vector).family) :
    structFields c = .ok (k.fields ts.anyVector ts.int32Vector) := by
  unfold structFields
  rw [hfamily, Declaration.family_fields]
  refine mapM_eq_ok.2 ?_
  show List.Forall₂ _ ((k.fields ts.anyVector ts.int32Vector).map _) _
  rw [List.forall₂_map_left_iff, List.forall₂_same]
  exact fun _ _ => rfl

/-- Nodes are structs with the fields of their kind. -/
theorem exists_struct (hreg : ts.Registered tt) (k : NodeKind) : ∃ c, tt.descriptor (ts.ofKind k) = .ok c ∧
    c.kind = .struct ∧ c.isMutable = (k == .expr) ∧ structFields c = .ok (k.fields ts.anyVector ts.int32Vector) := by
  obtain ⟨c, hc, hfamily, -⟩ := hreg.descriptor k
  refine ⟨c, hc, ?_, ?_, structFields_eq hfamily⟩
  · rw [Descriptor.kind, hfamily]
    rfl
  · rw [Descriptor.isMutable, hfamily]
    rfl

theorem made (hreg : ts.Registered h.types) (hm : Made d h h') : ts.Registered h'.types :=
  hreg.extends hm.keeps.registry.types

/-- The fields of nodes are scalars and references, and few. -/
theorem simple (hreg : ts.Registered tt) (hs : tt.Sound) (k : NodeKind) :
    SimpleFields tt (k.fields ts.anyVector ts.int32Vector) := by
  have hany : Simple tt Builtin.any := .reference (hs.builtin.descriptor rfl) rfl
  have hmodule : Simple tt Builtin.moduleType := .reference (hs.builtin.descriptor rfl) rfl
  have hint64 : Simple tt Builtin.int64 := .scalar (k := .int64) rfl
  have hsymbol : Simple tt Builtin.symbol := .scalar (k := .symbol) rfl
  have hdataType : Simple tt Builtin.dataType := .scalar (k := .dataType) rfl
  have hanyVector := simple_array hreg.anyVector.stands
  have hint32Vector := simple_array hreg.int32Vector.stands
  cases k <;> exact ⟨by simp [NodeKind.fields, *], by simp [NodeKind.fields]⟩

end Registered

end NodeTypes

namespace Node

/-! ## Vectors -/

/-- The first blank behind some elements gets an element. -/
theorem set_blank {α : Type} (xs : List α) (n : Nat) (b e : α) :
    (xs ++ List.replicate (n + 1) b).set xs.length e = (xs ++ [e]) ++ List.replicate n b := by
  simp [List.replicate_succ]

/-- By induction on the values that are left; slots for undefined ones stay empty. -/
theorem fillDefinedFrom_yields (xs : List (Option Datum)) {ys : List (Option Value)}
    (hstorage : f.flags.storage = .references) (hv : h.VectorOf a f (xs ++ List.replicate ys.length none))
    (hys : ∀ y, some y ∈ ys → h.isa y f.elem = .ok true) :
    Yields (fillDefinedFrom a xs.length ys) h fun _ h' =>
      Refilled f h h' ∧ h'.VectorOf a f (xs ++ ys.map (Option.map .ref)) := by
  induction ys generalizing h xs with
  | nil => exact Yields.pure ⟨.refl f h, hv⟩
  | cons y ys ih =>
    have hlength (d : Option Datum) : (xs ++ [d]).length = xs.length + 1 := List.length_append
    cases y with
    | none =>
      have hv : h.VectorOf a f ((xs ++ [none]) ++ List.replicate ys.length none) := by
        rw [List.append_assoc]
        exact hv
      have hrest := ih (xs ++ [none]) hv fun y hy => hys y (List.mem_cons_of_mem _ hy)
      rw [hlength, List.append_assoc] at hrest
      exact hrest
    | some y =>
      have hset := set_yields (i := xs.length) hv (by simp) hstorage (hys y List.mem_cons_self)
      refine Yields.bind hset fun _ h₁ hdone => ?_
      obtain ⟨hr, hv₁⟩ := hdone
      rw [List.length_cons, set_blank] at hv₁
      have hrest := ih (xs ++ [some (.ref y)]) hv₁ fun z hz =>
        hr.rewrites.extends.isa (hys z (List.mem_cons_of_mem _ hz))
      rw [hlength, List.append_assoc] at hrest
      exact hrest.mono fun _ h₂ hdone => ⟨hr.trans hdone.1, hdone.2⟩

theorem fillEdgesFrom_yields (xs : List (Option Datum)) {es : List Int32} {blank : Option Datum}
    (hstorage : f.flags.storage = .flat) (hc : f.elem = Builtin.int32)
    (hv : h.VectorOf a f (xs ++ List.replicate es.length blank)) :
    Yields (fillEdgesFrom a xs.length es) h fun _ h' =>
      Refilled f h h' ∧ h'.VectorOf a f (xs ++ es.map fun n => some (Nodes.edge n)) := by
  induction es generalizing h xs with
  | nil => exact Yields.pure ⟨.refl f h, hv⟩
  | cons n es ih =>
    have hset := setScalar_yields (k := .int32) (c := n) (i := xs.length) hv (by simp) hstorage hc rfl
    refine Yields.bind hset fun _ h₁ hdone => ?_
    obtain ⟨hr, hv₁⟩ := hdone
    rw [List.length_cons, set_blank] at hv₁
    have hrest := ih (xs ++ [some (Nodes.edge n)]) hv₁
    rw [List.length_append, List.append_assoc] at hrest
    exact hrest.mono fun _ h₂ hdone => ⟨hr.trans hdone.1, hdone.2⟩

/-- Values, some of them undefined, become a vector of references. -/
theorem optionalVector_makes {values : List (Option Value)} (ho : h.Orderly) (hreg : ts.Registered h.types)
    (hvalues : ∀ x, some x ∈ values → h.Live x) (ha : h.Affords (vectorDemand values.length refSize)) :
    Makes (vectorDemand values.length refSize) (optionalVector values) h fun a h' =>
      h'.typeOf a = .ok ts.anyVector ∧ ∃ f, h'.VectorOf a f (values.map (Option.map .ref)) := by
  refine vector_makes ho hreg.anyVector (elementStorage_any_yields ho.sound) (by decide) (by decide) ha ?_
  intro a f blank h' hm helem hblank hv
  have hstorage : f.flags.storage = .references :=
    storage_eq hv.body hm.sound.registry (by rw [helem]; exact elementStorage_any_yields hm.sound)
  obtain rfl : blank = none := default_eq_none (elementStorage_any_yields hm.sound) hblank
  refine fillDefinedFrom_yields [] hstorage hv fun x hx => ?_
  obtain ⟨s, hs⟩ := hm.sound.exists_typeOf (hm.keeps.live (hvalues x hx))
  rw [helem]
  exact isa_eq_ok.2 ⟨s, hs, TypeTable.isa_any _ _⟩

/-- Edge numbers become a vector of bits. -/
theorem edgeVector_makes {es : List Int32} (ho : h.Orderly) (hreg : ts.Registered h.types)
    (ha : h.Affords (vectorDemand es.length 4)) :
    Makes (vectorDemand es.length 4) (edgeVector es) h fun a h' =>
      h'.typeOf a = .ok ts.int32Vector ∧ ∃ f, h'.VectorOf a f (es.map fun n => some (Nodes.edge n)) := by
  refine vector_makes ho hreg.int32Vector (elementStorage_scalar_yields ho .int32) (by decide) (by decide) ha ?_
  intro a f blank h' hm helem _ hv
  have hstorage : f.flags.storage = .flat :=
    storage_eq hv.body hm.sound.registry (by rw [helem]; exact elementStorage_scalar_yields (hm.orderly ho) .int32)
  exact fillEdgesFrom_yields [] hstorage helem hv

/-! ## Records -/

theorem record_makes (ho : h.Orderly) (hreg : ts.Registered h.types) (k : NodeKind) (items : List (Value × Content))
    (hitems : List.Forall₂ (fun p i => h.Offers p.2 i.1 i.2) (k.fields ts.anyVector ts.int32Vector) items)
    (ha : h.Affords (.object (ts.size k))) :
    Makes (.object (ts.size k)) (Record.new (ts.ofKind k) (items.map Prod.fst)) h fun v h' =>
      h'.RecordOf v (ts.ofKind k) (items.map Prod.snd) := by
  obtain ⟨c, hc, hkind, hmutable, hfields⟩ := hreg.exists_struct k
  rw [NodeTypes.size, ← hmutable] at ha ⊢
  exact (Record.new_makes ho hc hkind hfields (hreg.simple ho.sound.registry.types k) ha hitems).mono
    fun v h' _ hr => hr.2

/-- A node whose fields are undefined. -/
theorem emptyRecord_makes (ho : h.Orderly) (hreg : ts.Registered h.types) (k : NodeKind)
    (hrefs : ∀ p ∈ k.fields ts.anyVector ts.int32Vector, ScalarKind.ofType? p.2 = none)
    (ha : h.Affords (.object (ts.size k))) :
    Makes (.object (ts.size k)) (Record.newUninit (ts.ofKind k)) h fun v h' =>
      h'.RecordOf v (ts.ofKind k) ((k.fields ts.anyVector ts.int32Vector).map fun _ => .ref none) := by
  obtain ⟨c, hc, hkind, hmutable, hfields⟩ := hreg.exists_struct k
  rw [NodeTypes.size, ← hmutable] at ha ⊢
  exact (Record.newUninit_makes ho hc hkind hfields (hreg.simple ho.sound.registry.types k) ha hrefs).mono
    fun v h' _ hr => hr.2

/-! ## Objects for nodes -/

/-- What a node is about is there, and it is well formed. -/
def Valid (ts : NodeTypes) (h : Heap) : Node → Prop
  | .goto _ | .line _ _ | .slot _ none | .ssa _ => True
  | .quote v | .newvar v => h.Live v
  | .slot _ (some t) => h.types.contains t = true
  | .global home _ => h.typeOf home = .ok Builtin.moduleType
  | .phi edges values => edges.length = values.length ∧ ∀ v, some v ∈ values → h.Live v
  | .phic values => ∀ v, some v ∈ values → h.Live v
  | .upsilon value => ∀ v, value = some v → h.Live v
  | .pi v t => h.Live v ∧ h.types.contains t = true
  | .expr _ args => ∀ v ∈ args, h.Live v
  | .literal v => Nodes.kindOf ts h v = .ok none

/-- The objects that are made for a node, and the symbols that get keys. -/
def demand (ts : NodeTypes) : Node → Demand
  | .goto label => Box.demand .int64 label ++ .object (ts.size .goto)
  | .line number file => Box.demand .int64 number ++ (Box.demand .symbol file ++ .object (ts.size .line))
  | .quote _ => .object (ts.size .quote)
  | .slot index none => Box.demand .int64 index ++ .object (ts.size .slot)
  | .slot index (some t) => Box.demand .int64 index ++ (Box.demand .dataType t ++ .object (ts.size .typedSlot))
  | .global _ name => Box.demand .symbol name ++ .object (ts.size .global)
  | .phi edges values =>
    vectorDemand edges.length 4 ++ (vectorDemand values.length refSize ++ .object (ts.size .phi))
  | .phic values => vectorDemand values.length refSize ++ .object (ts.size .phic)
  | .upsilon _ => .object (ts.size .upsilon)
  | .pi _ t => Box.demand .dataType t ++ .object (ts.size .pi)
  | .newvar _ => .object (ts.size .newvar)
  | .ssa id => Box.demand .int64 id ++ .object (ts.size .ssa)
  | .expr head args =>
    vectorDemand args.length refSize ++ (Box.demand .symbol head ++ .object (ts.size .expr))
  | .literal _ => .nothing

theorem encodeNumber_makes (ho : h.Orderly) (hreg : ts.Registered h.types) (k : NodeKind) (n : Int64)
    (hfields : ∃ name, k.fields ts.anyVector ts.int32Vector = [(name, Builtin.int64)])
    (ha : h.Affords (Box.demand .int64 n ++ .object (ts.size k))) :
    Makes (Box.demand .int64 n ++ .object (ts.size k)) (encodeNumber (ts.ofKind k) n) h fun v h' =>
      h'.RecordOf v (ts.ofKind k) [.scalar .int64 n] := by
  obtain ⟨name, hfields⟩ := hfields
  refine Makes.bind ha (Box.new_makes ho .int64 n) fun box h₁ hm ha₁ hbox => ?_
  refine record_makes (hm.orderly ho) (hreg.made hm) k [(box, .scalar .int64 n)] ?_ ha₁
  rw [hfields]
  exact .cons hbox.2.offers .nil

/-- The vectors of a join are made first. -/
theorem encodePhi_makes {edges : List Int32} {values : List (Option Value)} (ho : h.Orderly)
    (hreg : ts.Registered h.types) (hlength : edges.length = values.length) (hvalues : ∀ x, some x ∈ values → h.Live x)
    (ha : h.Affords ((Node.phi edges values).demand ts)) :
    Makes ((Node.phi edges values).demand ts) (encode ts (.phi edges values)) h fun v h' =>
      (Node.phi edges values).Represents ts h' v := by
  show Makes _ (if edges.length ≠ values.length then _ else _) h _
  rw [if_neg (not_not_intro hlength)]
  refine Makes.bind ha (edgeVector_makes ho hreg) fun es h₁ hm₁ ha₁ hes => ?_
  obtain ⟨htes, f, hes⟩ := hes
  have ho₁ := hm₁.orderly ho
  have hreg₁ := hreg.made hm₁
  refine Makes.bind ha₁ (optionalVector_makes ho₁ hreg₁ fun x hx => hm₁.keeps.live (hvalues x hx))
    fun vs h₂ hm₂ ha₂ hvs => ?_
  obtain ⟨htvs, g, hvs⟩ := hvs
  have hreg₂ := hreg₁.made hm₂
  have htypes := hm₂.sound.registry.types
  refine (record_makes (hm₂.orderly ho₁) hreg₂ .phi [(es, .ref (some es)), (vs, .ref (some vs))] ?_ ha₂).mono
    fun v h₃ hm₃ hr => ⟨es, vs, hr, ((hes.made hm₂).made hm₃).lists, (hvs.made hm₃).lists⟩
  exact .cons (offers_self (hm₂.keeps.typeOf htes) (ofType?_array htypes hreg₂.int32Vector.stands))
    (.cons (offers_self htvs (ofType?_array htypes hreg₂.anyVector.stands)) .nil)

theorem encodePhic_makes {values : List (Option Value)} (ho : h.Orderly) (hreg : ts.Registered h.types)
    (hvalues : ∀ x, some x ∈ values → h.Live x) (ha : h.Affords ((Node.phic values).demand ts)) :
    Makes ((Node.phic values).demand ts) (encode ts (.phic values)) h fun v h' =>
      (Node.phic values).Represents ts h' v := by
  refine Makes.bind ha (optionalVector_makes ho hreg hvalues) fun vs h₁ hm₁ ha₁ hvs => ?_
  obtain ⟨htvs, g, hvs⟩ := hvs
  have hreg₁ := hreg.made hm₁
  refine (record_makes (hm₁.orderly ho) hreg₁ .phic [(vs, .ref (some vs))] ?_ ha₁).mono
    fun v h₂ hm₂ hr => ⟨vs, hr, (hvs.made hm₂).lists⟩
  exact .cons (offers_self htvs (ofType?_array hm₁.sound.registry.types hreg₁.anyVector.stands)) .nil

/-- Arguments are values that are all defined. -/
theorem runOn_encodeExpr (ts : NodeTypes) (head : Symbol) (args : List Value) (h : Heap) :
    (encode ts (.expr head args)).runOn h = (do
      let a ← optionalVector (args.map some)
      let b ← Box.new .symbol head
      Record.new ts.expr [b, a] : HeapM Value).runOn h := by
  unfold encode optionalVector
  rw [Action.runOn_regroup, List.length_map]
  simp only [fillFrom_eq]

theorem encodeExpr_makes {head : Symbol} {args : List Value} (ho : h.Orderly) (hreg : ts.Registered h.types)
    (hargs : ∀ x ∈ args, h.Live x) (ha : h.Affords ((Node.expr head args).demand ts)) :
    Makes ((Node.expr head args).demand ts) (encode ts (.expr head args)) h fun v h' =>
      (Node.expr head args).Represents ts h' v := by
  have hdemand : (Node.expr head args).demand ts = vectorDemand (args.map some).length refSize ++
      (Box.demand .symbol head ++ .object (ts.size .expr)) := by
    rw [List.length_map]
    rfl
  have hargs : ∀ x, some x ∈ args.map some → h.Live x := fun x hx => by
    obtain ⟨y, hy, heq⟩ := List.mem_map.1 hx
    cases heq
    exact hargs _ hy
  rw [hdemand] at ha ⊢
  refine Yields.of_runOn_eq (runOn_encodeExpr ts head args h) ?_
  refine Makes.bind ha (optionalVector_makes ho hreg hargs) fun a h₁ hm₁ ha₁ ha => ?_
  obtain ⟨hta, f, hv⟩ := ha
  have ho₁ := hm₁.orderly ho
  refine Makes.bind ha₁ (Box.new_makes ho₁ .symbol head) fun b h₂ hm₂ ha₂ hb => ?_
  have hreg₂ := (hreg.made hm₁).made hm₂
  refine (record_makes (hm₂.orderly ho₁) hreg₂ .expr [(b, .scalar .symbol head), (a, .ref (some a))] ?_ ha₂).mono
    fun v h₃ hm₃ hr => ⟨a, hr, ?_⟩
  · exact .cons hb.2.offers (.cons (offers_self (hm₂.keeps.typeOf hta)
      (ofType?_array hm₂.sound.registry.types hreg₂.anyVector.stands)) .nil)
  · have hl := ((hv.made hm₂).made hm₃).lists
    rwa [List.map_map] at hl

/-- The object for a node says what the node says. -/
theorem encode_makes (ho : h.Orderly) (hreg : ts.Registered h.types) (hn : n.Valid ts h)
    (ha : h.Affords (n.demand ts)) : Makes (n.demand ts) (encode ts n) h fun v h' => n.Represents ts h' v := by
  have hs := ho.sound
  cases n with
  | goto label => exact encodeNumber_makes ho hreg .goto label ⟨_, rfl⟩ ha
  | ssa id => exact encodeNumber_makes ho hreg .ssa id ⟨_, rfl⟩ ha
  | line number file =>
    refine Makes.bind ha (Box.new_makes ho .int64 number) fun l h₁ hm₁ ha₁ hl => ?_
    have ho₁ := hm₁.orderly ho
    refine Makes.bind ha₁ (Box.new_makes ho₁ .symbol file) fun f h₂ hm₂ ha₂ hf => ?_
    have hreg₂ := (hreg.made hm₁).made hm₂
    refine record_makes (hm₂.orderly ho₁) hreg₂ .line [(l, .scalar .int64 number), (f, .scalar .symbol file)] ?_ ha₂
    exact .cons (hl.2.offers.made hm₁.sound hm₂) (.cons hf.2.offers .nil)
  | quote x => exact record_makes ho hreg .quote [(x, .ref (some x))] (.cons (offers_any hs hn) .nil) ha
  | newvar x => exact record_makes ho hreg .newvar [(x, .ref (some x))] (.cons (offers_any hs hn) .nil) ha
  | slot index declared =>
    cases declared with
    | none => exact encodeNumber_makes ho hreg .slot index ⟨_, rfl⟩ ha
    | some t =>
      refine Makes.bind ha (Box.new_makes ho .int64 index) fun i h₁ hm₁ ha₁ hi => ?_
      have ho₁ := hm₁.orderly ho
      obtain ⟨c, hc⟩ := TypeTable.contains_iff.1 hn
      have hc₁ := hm₁.keeps.descriptor hc
      refine Makes.bind ha₁ (Box.newType_makes ho₁ hc₁) fun t' h₂ hm₂ ha₂ ht' => ?_
      have hreg₂ := (hreg.made hm₁).made hm₂
      refine record_makes (hm₂.orderly ho₁) hreg₂ .typedSlot
        [(i, .scalar .int64 index), (t', .scalar .dataType t)] ?_ ha₂
      exact .cons (hi.2.offers.made hm₁.sound hm₂) (.cons ht'.2.offers .nil)
  | global home name =>
    refine Makes.bind ha (Box.new_makes ho .symbol name) fun b h₁ hm₁ ha₁ hb => ?_
    refine record_makes (hm₁.orderly ho) (hreg.made hm₁) .global
      [(home, .ref (some home)), (b, .scalar .symbol name)] ?_ ha₁
    exact .cons ((offers_self hn rfl).made hs hm₁) (.cons hb.2.offers .nil)
  | pi x t =>
    obtain ⟨hx, ht⟩ := hn
    obtain ⟨c, hc⟩ := TypeTable.contains_iff.1 ht
    refine Makes.bind ha (Box.newType_makes ho hc) fun t' h₁ hm₁ ha₁ ht' => ?_
    refine record_makes (hm₁.orderly ho) (hreg.made hm₁) .pi
      [(x, .ref (some x)), (t', .scalar .dataType t)] ?_ ha₁
    exact .cons ((offers_any hs hx).made hs hm₁) (.cons ht'.2.offers .nil)
  | upsilon value =>
    cases value with
    | some x =>
      exact record_makes ho hreg .upsilon [(x, .ref (some x))] (.cons (offers_any hs (hn x rfl)) .nil) ha
    | none => exact emptyRecord_makes ho hreg .upsilon (List.forall_mem_singleton.2 rfl) ha
  | phi edges values => exact encodePhi_makes ho hreg hn.1 hn.2 ha
  | phic values => exact encodePhic_makes ho hreg hn ha
  | expr head args => exact encodeExpr_makes ho hreg hn ha
  | literal x => exact Makes.pure hs ⟨rfl, hn⟩

end Node

end TypedHeap
