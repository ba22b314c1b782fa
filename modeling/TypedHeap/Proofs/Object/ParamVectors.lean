import TypedHeap.Proofs.Node.Reading
import TypedHeap.Proofs.Object.VectorLists

/-!
# Type parameters as objects

A vector of type parameters has a box for each of them: the box of the type, number, symbol or truth value that the
parameter is. Types must be registered for that. What the boxes hold are the parameters again, so different lists
of parameters make vectors that differ.

* `TypeParam.kind`, `TypeParam.scalar`: what a parameter is boxed as.
* `SimpleVector.paramsDemand`: what a vector of parameters takes.
* `SimpleVector.ListsParams`: a vector has the boxes of some parameters as its elements.
* `SimpleVector.HoldsParams`, `SimpleVector.Differ`: what can be asked of such a vector, and of two of them.

Main results: `ofParams_succeeds`, `registered_of_ofParams`, `ofParams_lists`, `HoldsParams.differ`.
-/

namespace TypedHeap

open TypedHeap.Action (Ends Meets Yields runOn_bind_ok runOn_bind_error)
open Heap

/-! ## Parameters -/

namespace TypeParam

variable {p q : TypeParam} {h h' : Heap} {v w : Value}

/-- The kind of scalar that a parameter is boxed as. -/
def kind : TypeParam → ScalarKind
  | .type _ => .dataType
  | .int _ => .int64
  | .symbol _ => .symbol
  | .bool _ => .bool

/-- The scalar that a parameter is. -/
def scalar : (p : TypeParam) → p.kind.Carrier
  | .type t => t
  | .int n => n
  | .symbol s => s
  | .bool b => b

/-- Boxes of different parameters have different types or hold different scalars. -/
theorem differ_of_ne (hv : h.Boxes v p.kind p.scalar) (hw : h.Boxes w q.kind q.scalar) (hs : h.Sound)
    (hne : p ≠ q) : h.typeOf v ≠ h.typeOf w ∨ ∃ k, Box.read k h v ≠ Box.read k h w := by
  by_cases hkind : p.kind = q.kind
  · right
    refine ⟨p.kind, fun hsame => hne ?_⟩
    rw [hv.read_eq hs] at hsame
    cases p <;> cases q <;> cases hkind
    all_goals
      have hread := hsame.trans (hw.read_eq hs)
      cases hread
      rfl
  · left
    rw [hv.type, hw.type]
    intro htype
    exact hkind (ScalarKind.type_injective (Except.ok.inj htype))

end TypeParam

namespace Box

variable {h : Heap} {p : TypeParam} {S : Value → Nat → Prop}

/-- A parameter becomes a box of what it is. -/
theorem ofParam_boxes (hr : Ready S h) (ho : h.Orderly) (p : TypeParam) :
    Meets (Path S) (ofParam p) h fun v h' => h'.Boxes v p.kind p.scalar := by
  have hnew (k : ScalarKind) (x : k.Carrier) : Meets (Path S) (new k x) h fun v h' => h'.Boxes v k x := by
    refine (new_meets hr k x).mono fun v h' hpath hv => ?_
    have ho' := ho.along hpath
    exact boxes_of_encodes hv.2.2 ho'.sound ho'.keys
  cases p with
  | type t => exact Meets.get_bind (Meets.lift_bind fun _ _ => hnew .dataType t)
  | int n => exact hnew .int64 n
  | symbol s => exact hnew .symbol s
  | bool b => exact hnew .bool b

/-- Only registered types become boxes, and none is registered for that. -/
theorem ofParam_registered (p : TypeParam) :
    Meets SameTypes (ofParam p) h fun _ _ => ∀ t, p.type? = some t → h.types.contains t = true := by
  cases p with
  | type t =>
    refine Meets.get_bind (Meets.lift_bind fun d hd => (Node.box_sameTypes .dataType t).mono fun _ _ _ _ => ?_)
    rintro _ ⟨⟩
    exact TypeTable.contains_iff.2 ⟨d, hd⟩
  | int n => exact (Node.box_sameTypes .int64 n).mono fun _ _ _ _ => nofun
  | symbol s => exact (Node.box_sameTypes .symbol s).mono fun _ _ _ _ => nofun
  | bool b => exact (Node.box_sameTypes .bool b).mono fun _ _ _ _ => nofun

/-- With room for its box, a parameter becomes one if it is no unregistered type. -/
theorem ofParam_makes (ho : h.Orderly) (hp : ∀ t, p.type? = some t → h.types.contains t = true)
    (ha : h.Affords (demand p.kind p.scalar)) :
    Makes (demand p.kind p.scalar) (ofParam p) h fun _ _ => True := by
  cases p with
  | type t =>
    obtain ⟨d, hd⟩ := TypeTable.contains_iff.1 (hp t rfl)
    exact (newType_makes ho hd ha).mono fun _ _ _ _ => trivial
  | int n => exact (new_makes ho .int64 n ha).mono fun _ _ _ _ => trivial
  | symbol s => exact (new_makes ho .symbol s ha).mono fun _ _ _ _ => trivial
  | bool b => exact (new_makes ho .bool b ha).mono fun _ _ _ _ => trivial

end Box

/-! ## Vectors of parameters -/

namespace SimpleVector

variable {h h' : Heap} {v w : Value} {ps qs : Params} {S : Value → Nat → Prop}

/-- What boxes for parameters take. -/
def boxesDemand : Params → Demand
  | [] => .nothing
  | p :: ps => Box.demand p.kind p.scalar ++ boxesDemand ps

/-- What a vector of parameters takes: the boxes, and the vector. -/
def paramsDemand (ps : Params) : Demand := boxesDemand ps ++ .object (refSize * ps.length + refSize)

/-- A vector has the boxes of some parameters as its elements. -/
def ListsParams (h : Heap) (v : Value) (ps : Params) : Prop :=
  ∃ items, Lists h v (items.map some) ∧ List.Forall₂ (fun p b => h.Boxes b p.kind p.scalar) ps items

/-- What a vector of parameters answers. -/
structure HoldsParams (h : Heap) (v : Value) (ps : Params) : Prop where
  length : SimpleVector.length h v = .ok ps.length
  /-- Each element is a box of the type that the parameter asks for, and holds the parameter. -/
  element : ∀ i p, ps[i]? = some p → ∃ b, get h v i = .ok b ∧ h.Live b ∧ h.typeOf b = .ok p.kind.type ∧
    Box.read p.kind h b = .ok p.scalar

/-- Two vectors have different lengths, or elements at one index that have different types or hold different
scalars. -/
def Differ (h : Heap) (v w : Value) : Prop :=
  SimpleVector.length h v ≠ SimpleVector.length h w ∨
    ∃ i b c, get h v i = .ok b ∧ get h w i = .ok c ∧ (h.typeOf b ≠ h.typeOf c ∨ ∃ k, Box.read k h b ≠ Box.read k h c)

/-- The element for a parameter is its box. -/
theorem exists_box {items : List Value} {i : Nat} {p : TypeParam} (hl : Lists h v (items.map some))
    (hboxes : List.Forall₂ (fun p b => h.Boxes b p.kind p.scalar) ps items) (hp : ps[i]? = some p) :
    ∃ b, get h v i = .ok b ∧ h.Boxes b p.kind p.scalar := by
  obtain ⟨hi, rfl⟩ := List.getElem?_eq_some_iff.1 hp
  obtain ⟨hlength, hall⟩ := List.forall₂_iff_get.1 hboxes
  have hi' : i < items.length := hlength ▸ hi
  refine ⟨items[i], (hl.get i _).2 ?_, hall i hi hi'⟩
  rw [List.getElem?_map, List.getElem?_eq_getElem hi']
  rfl

theorem ListsParams.holds (hv : ListsParams h v ps) (hs : h.Sound) : HoldsParams h v ps := by
  obtain ⟨items, hl, hboxes⟩ := hv
  constructor
  · rw [hl.length_eq hs, List.length_map, hboxes.length_eq]
  · intro i p hp
    obtain ⟨b, hb, hbox⟩ := exists_box hl hboxes hp
    exact ⟨b, hb, live_of_typeOf hbox.type, hbox.type, hbox.read_eq hs⟩

/-- Vectors of different parameters differ. -/
theorem ListsParams.differ (hv : ListsParams h v ps) (hw : ListsParams h w qs) (hs : h.Sound) (hne : ps ≠ qs) :
    Differ h v w := by
  by_cases hlength : ps.length = qs.length
  · right
    obtain ⟨i, hi, hi', hat⟩ : ∃ i, ∃ (hi : i < ps.length) (hi' : i < qs.length), ps[i] ≠ qs[i] := by
      by_contra hnone
      refine hne (List.ext_getElem hlength fun i hi hi' => ?_)
      by_contra hat
      exact hnone ⟨i, hi, hi', hat⟩
    obtain ⟨items, hl, hboxes⟩ := hv
    obtain ⟨others, hl', hboxes'⟩ := hw
    obtain ⟨b, hb, hbox⟩ := exists_box hl hboxes (List.getElem?_eq_getElem hi)
    obtain ⟨c, hc, hbox'⟩ := exists_box hl' hboxes' (List.getElem?_eq_getElem hi')
    exact ⟨i, b, c, hb, hc, TypeParam.differ_of_ne hbox hbox' hs hat⟩
  · left
    rw [(hv.holds hs).length, (hw.holds hs).length]
    intro heq
    exact hlength (Except.ok.inj heq)

/-! ## Making them -/

/-- If a vector of parameters is made, all types among them are registered. -/
theorem registered_of_ofParams (hrun : ((ofParams ps).runOn h).1 = .ok v) :
    ∀ t ∈ ps.types, h.types.contains t = true := by
  have hitems : Meets SameTypes (ps.mapM Box.ofParam) h fun items _ =>
      List.Forall₂ (fun p _ => ∀ t, p.type? = some t → h.types.contains t = true) ps items := by
    refine Meets.mapM ps (I := fun k => k.types = h.types) rfl ?_ (fun _ _ _ _ _ _ hp => hp) ?_
    · intro k k' hk hsame
      exact Eq.trans hsame hk
    · intro p _ k hk
      have hp := Box.ofParam_registered (h := k) p
      rwa [hk] at hp
  rcases hboxed : (ps.mapM Box.ofParam).runOn h with ⟨e | items, h₁⟩
  · rw [ofParams, runOn_bind_error hboxed] at hrun
    cases hrun
  · have hall := hitems.answer items (by rw [hboxed])
    clear hboxed hitems hrun
    intro t ht
    obtain ⟨p, hp, hpt⟩ := List.mem_filterMap.1 ht
    induction hall with
    | nil => cases hp
    | cons hq _ ih =>
      rcases List.mem_cons.1 hp with rfl | hp
      · exact hq t hpt
      · exact ih (List.mem_filterMap.2 ⟨p, hp, hpt⟩) hp

/-- With room for them, there is a box for each parameter. -/
theorem items_makes (ho : h.Orderly) (hps : ∀ t ∈ ps.types, h.types.contains t = true)
    (ha : h.Affords (boxesDemand ps)) : Makes (boxesDemand ps) (ps.mapM Box.ofParam) h fun items _ =>
      items.length = ps.length := by
  induction ps generalizing h with
  | nil => exact Makes.pure ho.sound rfl
  | cons p ps ih =>
    have hp : ∀ t, p.type? = some t → h.types.contains t = true := by
      intro t ht
      exact hps t (List.mem_filterMap.2 ⟨p, List.mem_cons_self, ht⟩)
    rw [List.mapM_cons]
    refine Makes.bind ha (Box.ofParam_makes ho hp) fun b h₁ hm ha₁ _ => ?_
    have hrest : ∀ t ∈ Params.types ps, h₁.types.contains t = true := by
      intro t ht
      obtain ⟨q, hq, hqt⟩ := List.mem_filterMap.1 ht
      exact hm.grows.extends.types.contains
        (hps t (List.mem_filterMap.2 ⟨q, List.mem_cons_of_mem p hq, hqt⟩))
    refine Yields.bind (ih (hm.orderly ho) hrest ha₁) fun items h₂ hdone => ?_
    exact Yields.pure ⟨hdone.1, congrArg Nat.succ hdone.2⟩

/-- With room for it, a vector of given objects is made. -/
theorem new_succeeds {items : List Value} (ho : h.Orderly)
    (ha : h.Affords (.object (refSize * items.length + refSize))) : ∃ v h', (new items).runOn h = (.ok v, h') := by
  have hroom : h.nextStart + (refSize * items.length + refSize) ≤ h.limit := ha.room
  have hlimit : h.limit < 0x10000000000000000 := h.config.maxBytes.toNat_lt
  have hsize : Yields (checkedSize (refSize * items.length + refSize)) h fun m h' =>
      h.Learns h' ∧ m = refSize * items.length + refSize := by
    unfold checkedSize
    rw [if_pos (by rw [maxWord]; omega)]
    exact Yields.pure ⟨.refl h, rfl⟩
  obtain ⟨v, h₁, hrun, -⟩ := allocate_makes ho ho.sound.descriptor_simpleVector hsize ha
  have hbuild : (build items.length).runOn h = (.ok ⟨v, items.length⟩, h₁) := runOn_bind_ok hrun
  obtain ⟨h', hnew, -⟩ := new_of_build ho.sound hbuild
  exact ⟨v, h', hnew⟩

/-- With room for it, a vector of parameters is made if all types among them are registered. -/
theorem ofParams_succeeds (ho : h.Orderly) (hps : ∀ t ∈ ps.types, h.types.contains t = true)
    (ha : h.Affords (paramsDemand ps)) : ∃ v h', (ofParams ps).runOn h = (.ok v, h') := by
  obtain ⟨items, h₁, hitems, hm, hlength⟩ := items_makes ho hps ha.left
  have ha₁ := ha.after hm
  rw [← hlength] at ha₁
  obtain ⟨v, h', hnew⟩ := new_succeeds (hm.orderly ho) ha₁
  exact ⟨v, h', (runOn_bind_ok hitems).trans hnew⟩

/-- Each parameter is made its box. The boxes that were made before stay what they are. -/
theorem items_boxes (ho : h.Orderly) : Ends (ps.mapM Box.ofParam) h
    (fun items h' => h'.Orderly ∧ List.Forall₂ (fun p b => h'.Boxes b p.kind p.scalar) ps items) fun _ => True := by
  induction ps generalizing h with
  | nil => exact Ends.of_ok (Action.runOn_pure [] h) ⟨ho, .nil⟩
  | cons p ps ih =>
    have hready : Ready (fun w _ => ¬h.Live w) h := ⟨ho.sound, fun hw _ => hw⟩
    rw [List.mapM_cons]
    refine Ends.bind (Ends.of_meets (Box.ofParam_boxes hready ho p)).answers fun b h₁ hfirst => ?_
    obtain ⟨hpath, hb⟩ := hfirst
    have ho₁ := ho.along hpath
    have hready₁ : Ready (fun w _ => ¬h₁.Live w) h₁ := ⟨ho₁.sound, fun hw _ => hw⟩
    have hrest := (Ends.of_meets (items_meets hready₁ ps)).answers.and (ih ho₁)
    refine Ends.bind hrest.answers fun items h₂ hrest => ?_
    obtain ⟨⟨hpath₁, -⟩, ho₂, hboxes⟩ := hrest
    have hkept := hb.keeps ho₁.sound (hpath₁.keeps ho₁.sound) (fun _ hdead => hdead (live_of_typeOf hb.type))
      (hpath₁.trail.symbols ho₁.sound)
    exact Ends.of_ok (Action.runOn_pure _ h₂) ⟨ho₂, .cons hkept hboxes⟩

/-- The elements of a vector of parameters are their boxes. -/
theorem ofParams_lists (ho : h.Orderly) (hrun : (ofParams ps).runOn h = (.ok v, h')) :
    ¬h.Live v ∧ ListsParams h' v ps := by
  have hready : Ready (fun w _ => ¬h.Live w) h := ⟨ho.sound, fun hw _ => hw⟩
  have hfresh := ((ofParams_meets hready ps).answer v (by rw [hrun])).1
  rcases hboxed : (ps.mapM Box.ofParam).runOn h with ⟨e | items, h₁⟩
  · rw [ofParams, runOn_bind_error hboxed] at hrun
    cases hrun
  · rw [ofParams, runOn_bind_ok hboxed] at hrun
    obtain ⟨ho₁, hboxes⟩ := (items_boxes ho).answer items h₁ hboxed
    have hready₁ : Ready (fun w _ => ¬h₁.Live w) h₁ := ⟨ho₁.sound, fun hw _ => hw⟩
    have hpath := (new_meets hready₁ items).kept
    rw [hrun] at hpath
    refine ⟨hfresh, items, new_lists ho₁.sound hrun, hboxes.imp fun p b hb => ?_⟩
    exact hb.keeps ho₁.sound (hpath.keeps ho₁.sound) (fun _ hdead => hdead (live_of_typeOf hb.type))
      (hpath.trail.symbols ho₁.sound)

end SimpleVector

end TypedHeap
