import TypedHeap.Proofs.Layout.Sameness
import TypedHeap.Proofs.Layout.Termination
import TypedHeap.Proofs.Session.Subtyping

/-!
# Dependencies along a run

Types are declared, families are applied long after they were declared, and unions are put in normal form. At
no time does a type depend on one that is not registered or came later. So showing a type, the subtype test and
the computation of a layout come to an end for all registered types, with no bound on their depth.

* `TypeTable.Founded`: what types depend on comes before them, and unions are flat.
* `Registry.Answers`: what is asked about a type by recursion is answered without a bound.

Main result: `Session.Reachable.dependencies_founded`.
-/

namespace TypedHeap

open Heap

/-- What types depend on comes before them, and unions are flat. -/
structure TypeTable.Founded (tt : TypeTable) : Prop where
  earlier : ∀ {t d s}, tt.descriptor t = .ok d → d.DependsOn s → tt.contains s = true ∧ s.index < t.index
  /-- No member of a union is a union, or the type that has everything below it. -/
  flat : ∀ {t d s}, tt.descriptor t = .ok d → d.kind = .union → s ∈ d.memberTypes →
    s ≠ Builtin.any ∧ ∃ e, tt.descriptor s = .ok e ∧ e.kind ≠ .union
  wellFounded : WellFounded tt.Depends
  /-- No type contains itself. -/
  acyclic : ∀ t, ¬Relation.TransGen tt.Depends t t

/-- What is asked about a type by recursion is answered, however many steps it takes. -/
structure Registry.Answers (r : Registry) (t : TypeRef) (d : Descriptor) : Prop where
  render : ∃ text, r.table.render t = .ok text ∧ Terminates r.table.renderStep t (.ok text)
  /-- The loop along the supertypes of the type. -/
  chain : ∀ u, ∃ b, r.table.chainMeets u t.index d.supertype = .ok b ∧
    Terminates (r.table.chainStep u) d.supertype (.ok b)
  isa : ∀ u, r.table.contains u = true → ∃ b, r.table.isa t u = .ok b ∧ Terminates r.table.isaStep (t, u) (.ok b)
  /-- A type with objects has a layout, unless it is or has inside itself one whose fields take up more than a word
  can say. One without objects has none. There is no other error. -/
  layout : ∃ x, Terminates (Layouts.step r.table) t x ∧
    (d.kind.isInstantiable = true → (∃ l, (x.runOn r.layouts).1 = .ok l) ∨
      (x.runOn r.layouts).1 = .error .overflow ∧ ∃ s, Layouts.Inside r.table t s ∧ Layouts.Overfull r.table s) ∧
    (d.kind.isInstantiable = false → ∃ text, r.table.render t = .ok text ∧
      (x.runOn r.layouts).1 = .error (.invalidArgument (text ++ " is abstract and has no layout")))

variable {t : TypeRef} {d : Descriptor}

theorem TypeTable.Sound.founded {tt : TypeTable} (hs : tt.Sound) (ho : tt.Ordered) (hr : tt.Rising) : tt.Founded where
  earlier hd hdep := by
    have hlt := ho.lt_of_dependsOn hr hd hdep
    exact ⟨contains_of_lt hd hlt, hlt⟩
  flat {t d s} hd hkind hmem := by
    obtain ⟨ts, hparams, hnormal⟩ := hs.normal hd hkind
    rw [Descriptor.memberTypes, hparams, Params.types_ofTypes] at hmem
    exact ⟨fun hany => hnormal.proper (hany ▸ hmem), hnormal.atomic s hmem⟩
  wellFounded := ho.wellFounded_depends hr
  acyclic := ho.not_depends_self hr

theorem Registry.Sound.answers {r : Registry} (hs : r.Sound) (ho : r.table.Ordered) (hb : r.table.BelowAbstract)
    (hr : r.table.Rising) (hd : r.table.descriptor t = .ok d) : r.Answers t d where
  render := by
    obtain ⟨text, htext⟩ := TypeTable.exists_renderWithin ho (TypeTable.contains_iff.2 ⟨d, hd⟩) (Nat.le_refl _)
    have htext : r.table.render t = .ok text := htext
    exact ⟨text, htext, htext ▸ TypeTable.terminates_render ho t⟩
  chain u := by
    obtain ⟨b, hmeets⟩ := TypeTable.exists_chainMeets (t := u) hs.types hb hd t.index
    exact ⟨b, hmeets, hmeets ▸ TypeTable.terminates_chain hr hd u⟩
  isa u hu := by
    obtain ⟨b, hisa, -⟩ := TypeTable.isa_decides hs.types ho hb (TypeTable.contains_iff.2 ⟨d, hd⟩) hu
    exact ⟨b, hisa, hisa ▸ TypeTable.terminates_isa ho t u⟩
  layout := by
    refine ⟨_, Layouts.terminates_step ho t, fun hkind => ?_, fun hkind => ?_⟩
    · rw [Layouts.outcome_unbounded hs.types ho hr hs.layouts]
      have hraises := Layouts.reference_raises hs.types ho hr hd hkind
      cases hlayout : Layouts.reference r.table t with
      | ok l => exact .inl ⟨l, rfl⟩
      | error e =>
        obtain ⟨rfl, hover⟩ := hraises e hlayout
        exact .inr ⟨rfl, hover⟩
    · obtain ⟨text, htext⟩ := TypeTable.exists_renderWithin ho (TypeTable.contains_iff.2 ⟨d, hd⟩) (Nat.le_refl _)
      rw [Layouts.outcome_unbounded hs.types ho hr hs.layouts]
      exact ⟨text, htext, TypeTable.reference_abstract hs.types ho hd hkind htext⟩

namespace Session

variable {s : Session}

/-- In every registry that operations lead to, types come after what they depend on, and whatever is asked
about a registered type by recursion is answered without a bound. -/
theorem Reachable.dependencies_founded (hs : Reachable s) :
    s.heap.types.Founded ∧
      ∀ t d, s.heap.types.descriptor t = .ok d → s.heap.registry.Answers t d := by
  have hsound := hs.sound.heap.registry
  have ho : s.heap.types.Ordered := hs.ordered
  have hr : s.heap.types.Rising := hs.rising
  have hb : s.heap.types.BelowAbstract := hs.belowAbstract
  exact ⟨hsound.types.founded ho hr, fun t d hd => hsound.answers ho hb hr hd⟩

/-- An abstract type and a union, a family of pairs that is applied to the union, and a tuple that holds a pair. -/
def woven : Session :=
  start ⟨64, 4096⟩ .off
    |>.next (.define { name := "Shape", kind := .abstract })
    |>.next (.declare {
      name := "Pair", kind := .struct, supertype := tier 0, params := ["T"]
      fields := [("first", .param 0), ("second", .type Builtin.int64)] })
    |>.next (.union [Builtin.int8, Builtin.bool])
    |>.next (.apply "Pair" [.type (tier 1)])
    |>.next (.tupleType [tier 2, Builtin.nothing])

theorem dependencies_founded_woven :
    Reachable woven ∧ woven.heap.types.Founded ∧ woven.heap.types.Depends (tier 0) (tier 2) ∧
      woven.heap.types.Depends (tier 1) (tier 2) ∧
      ∃ d, woven.heap.types.descriptor (tier 3) = .ok d ∧ d.DependsOn (tier 2) ∧
        woven.heap.registry.Answers (tier 3) d := by
  have h₀ : Reachable (start ⟨64, 4096⟩ .off) := reachable_start _ _
  have hs : Reachable woven := ((((h₀.next _ (by nofun)).next _ (by nofun)).next _ (by nofun)).next _ (by nofun)).next
    _ (by nofun)
  obtain ⟨d, hd, hpair⟩ := exists_answer (x := woven.heap.types.descriptor (tier 2))
    (g := fun d => (d.supertype, d.memberTypes)) (b := (some (tier 0), [tier 1])) (by decide +kernel)
  obtain ⟨e, he, htuple⟩ := exists_answer (x := woven.heap.types.descriptor (tier 3))
    (g := Descriptor.memberTypes) (b := [tier 2, Builtin.nothing]) (by decide +kernel)
  obtain ⟨hsup, hmembers⟩ := Prod.mk.inj hpair
  have hmember : tier 1 ∈ d.memberTypes := hmembers ▸ List.mem_cons_self
  have hpair : tier 2 ∈ e.memberTypes := htuple ▸ List.mem_cons_self
  obtain ⟨hfounded, hanswers⟩ := hs.dependencies_founded
  exact ⟨hs, hfounded, ⟨d, hd, .inr hsup⟩, ⟨d, hd, .inl (.inl hmember)⟩, e, he, .inl (.inl hpair), hanswers _ _ he⟩

/-- Bits that take up nearly as much as a word can say, and a tuple with a number behind them. -/
def brimming : Session :=
  start ⟨64, 4096⟩ .off
    |>.next (.define { name := "Huge", kind := .primitive 0xfffffffffffffff8 8 })
    |>.next (.tupleType [tier 0, Builtin.int64])

/-- The bits have a layout, and the tuple has none. -/
example : ((Operation.sizeOf (tier 0)).perform.runOn brimming.heap).1 = .ok 0xfffffffffffffff8 ∧
    ((Operation.layout (tier 1)).perform.runOn brimming.heap).1 = .error .overflow := by decide +kernel

end Session

end TypedHeap
