import TypedHeap.Inspect.Report
import TypedHeap.Proofs.Layout.Memo
import TypedHeap.Proofs.Types.Operations

/-!
# The registry over time

A registry learns types and layouts and forgets none.

* `Registry.Sound`: its type table and its remembered layouts are sound.
* `Registry.Grows`: how it changes. Operations on it only let it grow.
* `Registry.layout_meets`, `isInline_meets`, `sizeOf_meets`: what the answers to questions mean.
* `Registry.runOn_layout`, `runOn_isInline`: a question that was answered before changes nothing.
-/

namespace TypedHeap

namespace Registry

open TypedHeap.Action (Meets)

variable {α : Type} {r r' r'' : Registry} {t : TypeRef} {l : Layout}

/-! ## Soundness and growth -/

/-- What holds of a registry that grows out of the builtin types. -/
structure Sound (r : Registry) : Prop where
  types : r.table.Sound
  layouts : r.layouts.Sound r.table

theorem sound_fresh : fresh.Sound := ⟨TypeTable.sound_builtin, LayoutMemo.sound_empty _⟩

/-- What one registry knows, the other knows too. -/
structure Extends (r r' : Registry) : Prop where
  types : r.table.Extends r'.table
  layouts : r.layouts.Extends r'.layouts

theorem Extends.refl (r : Registry) : r.Extends r := ⟨.refl _, fun h => h⟩

theorem Extends.trans (h : r.Extends r') (h' : r'.Extends r'') : r.Extends r'' :=
  ⟨h.types.trans h'.types, fun hl => h'.layouts (h.layouts hl)⟩

/-- How a registry changes: types are added to the table, layouts to the memo. -/
structure Grows (r r' : Registry) : Prop where
  types : TypeTable.Path r.table r'.table
  layouts : r.layouts.Extends r'.layouts
  sound : r.Sound → r'.Sound

theorem Grows.extends (h : r.Grows r') : r.Extends r' := ⟨TypeTable.Path.extends h.types, h.layouts⟩

theorem Grows.refl (r : Registry) : r.Grows r := ⟨.refl, fun h => h, fun h => h⟩

theorem Grows.trans (h : r.Grows r') (h' : r'.Grows r'') : r.Grows r'' :=
  ⟨h.types.trans h'.types, fun hl => h'.layouts (h.layouts hl), fun hs => h'.sound (h.sound hs)⟩

instance : Std.Refl Grows := ⟨Grows.refl⟩

instance : Trans Grows Grows Grows := ⟨Grows.trans⟩

theorem grows_types {tt : TypeTable} (h : TypeTable.Path r.table tt) :
    r.Grows { r with table := tt } :=
  ⟨h, fun h => h, fun hs => ⟨TypeTable.Path.sound h hs.types, hs.layouts.extends (TypeTable.Path.extends h)⟩⟩

theorem grows_layouts {m : LayoutMemo} (h : LayoutMemo.Grows r.table r.layouts m) :
    r.Grows { r with layouts := m } :=
  ⟨.refl, h.extension, fun hs => ⟨hs.types, h.sound hs.types hs.layouts⟩⟩

theorem onTypes_meets {x : Action TypeTable α} {Q : α → TypeTable → Prop}
    (h : Meets TypeTable.Path x r.table Q) :
    Meets Grows (onTypes x) r fun a r' => Q a r'.table :=
  Meets.focus h (fun _ => grows_types) fun _ _ hQ => hQ

theorem onLayouts_meets {x : TypeTable → Action LayoutMemo α} {Q : α → LayoutMemo → Prop}
    (h : Meets (LayoutMemo.Grows r.table) (x r.table) r.layouts Q) :
    Meets Grows (onLayouts x) r fun a r' => Q a r'.layouts ∧ r'.table = r.table :=
  Meets.get_bind (Meets.focus h (fun _ => grows_layouts) fun _ _ hQ => ⟨hQ, rfl⟩)

/-! ## Layouts -/

/-- Somebody asked whether a type is stored inline, and the answer was `b`. -/
def Inline (r : Registry) (t : TypeRef) (b : Bool) : Prop := Layouts.Inline r.table r.layouts t b

/-- Somebody asked for the size of a type, and the answer was `n`. -/
def Sized (r : Registry) (t : TypeRef) (n : Nat) : Prop :=
  ∃ l, r.layouts.find? t = some l ∧ l.size = n

theorem Inline.extends {b : Bool} (h : r.Inline t b) (hext : r.Extends r') : r'.Inline t b :=
  Layouts.Inline.extends h hext.types hext.layouts

theorem Sized.extends {n : Nat} (h : r.Sized t n) (hext : r.Extends r') : r'.Sized t n := by
  obtain ⟨l, hl, hn⟩ := h
  exact ⟨l, hext.layouts hl, hn⟩

theorem layout_meets (t : TypeRef) :
    Meets Grows (layout t) r fun l r' => r'.layouts.find? t = some l :=
  (onLayouts_meets (Layouts.of_meets t r.layouts)).mono fun _ _ _ h => h.1

theorem isInline_meets (t : TypeRef) : Meets Grows (isInline t) r fun b r' => r'.Inline t b := by
  refine (onLayouts_meets (Layouts.isInline_meets t r.layouts)).mono fun b r' _ h => ?_
  rw [Inline, h.2]
  exact h.1

theorem sizeOf_meets (t : TypeRef) : Meets Grows (sizeOf t) r fun n r' => r'.Sized t n :=
  Meets.bind (layout_meets t) fun l _ _ hl => Meets.pure ⟨l, hl, rfl⟩

theorem alignmentOf_meets (t : TypeRef) : Meets Grows (alignmentOf t) r fun _ _ => True :=
  Meets.bind (layout_meets t) fun _ _ _ _ => Meets.pure trivial

theorem fieldCount_meets (t : TypeRef) : Meets Grows (fieldCount t) r fun _ _ => True :=
  Meets.bind (layout_meets t) fun _ _ _ _ => Meets.pure trivial

theorem field_meets (t : TypeRef) (i : Nat) : Meets Grows (field t i) r fun _ _ => True :=
  Meets.bind (layout_meets t) fun _ _ _ _ => Meets.lift fun _ _ => trivial

theorem fieldIndex_meets (t : TypeRef) (name : Symbol) :
    Meets Grows (fieldIndex t name) r fun _ _ => True := by
  unfold fieldIndex
  refine Meets.bind (layout_meets t) fun l r' _ _ => ?_
  split
  · exact Meets.pure trivial
  · exact Meets.get_bind (Meets.throw _)

/-! ## Asking again -/

theorem runOn_onLayouts (x : TypeTable → Action LayoutMemo α) (r : Registry) :
    (onLayouts x).runOn r =
      (((x r.table).runOn r.layouts).1, { r with layouts := ((x r.table).runOn r.layouts).2 }) :=
  rfl

/-- The layout of a type that was asked for before is found without a change. -/
theorem runOn_layout (hr : r.Sound) (hl : r.layouts.find? t = some l) :
    (layout t).runOn r = (.ok l, r) := by
  obtain ⟨d, hd, -⟩ := hr.layouts.describes hl
  rw [layout, runOn_onLayouts, Layouts.runOn_of hd hl]

theorem runOn_sizeOf {n : Nat} (hr : r.Sound) (hn : r.Sized t n) :
    (sizeOf t).runOn r = (.ok n, r) := by
  obtain ⟨l, hl, rfl⟩ := hn
  exact Action.runOn_bind_ok (runOn_layout hr hl)

theorem runOn_isInline {b : Bool} (h : r.Inline t b) : (isInline t).runOn r = (.ok b, r) := by
  rw [isInline, runOn_onLayouts, Layouts.runOn_isInline h]

end Registry

/-! ## Reports -/

namespace Report

open TypedHeap.Action (Meets)
open Registry (Grows)

variable {r : Registry}

theorem traits_meets (t : TypeRef) : Meets Grows (traits t) r fun _ _ => True := by
  unfold traits
  refine Meets.get_bind (Meets.lift_bind fun d _ => ?_)
  refine Meets.ite (fun _ => Meets.pure_bind (Meets.pure trivial)) fun _ => ?_
  exact Meets.bind (Registry.isInline_meets t) fun _ _ _ _ => Meets.pure trivial

theorem extent_meets (t : TypeRef) : Meets Grows (extent t) r fun _ _ => True := by
  unfold extent
  refine Meets.bind (Meets.attempt (Registry.layout_meets t)) fun a r' _ _ => ?_
  split
  · exact Meets.pure trivial
  · exact Meets.pure trivial
  · exact Meets.throw _

theorem builtinRow_meets (t : TypeRef) : Meets Grows (builtinRow t) r fun _ _ => True := by
  unfold builtinRow
  refine Meets.get_bind (Meets.lift_bind fun name _ => ?_)
  refine Meets.bind (extent_meets t) fun e r' _ _ => ?_
  exact Meets.bind (traits_meets t) fun _ _ _ _ => Meets.pure trivial

theorem builtins_meets : Meets Grows builtins r fun _ _ => True := by
  unfold builtins
  have hrows : Meets Grows (Builtin.all.mapM builtinRow) r _ :=
    Meets.mapM (I := fun _ => True) (P := fun _ _ _ => True) Builtin.all trivial
      (fun _ _ _ _ => trivial) (fun _ _ _ _ _ _ _ => trivial) fun t _ _ _ => builtinRow_meets t
  exact Meets.bind hrows fun _ _ _ _ => Meets.pure trivial

theorem fieldRow_meets (number : Nat) (f : FieldLayout) :
    Meets Grows (fieldRow number f) r fun _ _ => True :=
  Meets.get_bind (Meets.lift_bind fun _ _ => Meets.pure trivial)

theorem layoutOf_meets (name : String) : Meets Grows (layoutOf name) r fun _ _ => True := by
  unfold layoutOf
  refine Meets.get_bind ?_
  split
  · exact Meets.throw _
  · rename_i t _
    refine Meets.bind (Registry.layout_meets t) fun l r' _ _ => Meets.get_bind ?_
    refine Meets.lift_bind fun d _ => ?_
    refine Meets.bind (Meets.mapM (I := fun _ => True) (P := fun _ _ _ => True) _ trivial
      (fun _ _ _ _ => trivial) (fun _ _ _ _ _ _ _ => trivial) fun p _ _ _ => ?_) ?_
    · exact fieldRow_meets p.2 p.1
    · exact fun _ _ _ _ => Meets.lift_bind fun _ _ => Meets.pure trivial

end Report

end TypedHeap
