import TypedHeap.Proofs.Layout.History
import TypedHeap.Proofs.Layout.Placement
import TypedHeap.Proofs.Session.Run

/-!
# Layouts along a run

Types and layouts are asked for in any order, between declarations and on the way of other operations.
What is remembered is right and stays, and divides the objects of a struct or tuple as tightly as alignments
allow. Whether an answer is given at all may depend on what was asked before, but only for types that nest deeper
than the bound.

* `Heap.unasked`: a heap with the same declarations that was never asked for a layout.
* `Operation.Measures`: operations whose answer is read off the layout of a type.

Main results: `Session.Reachable.layouts_correct`, `Session.Reachable.layouts_bounded`,
`Session.Reachable.layout_geometry`.
-/

namespace TypedHeap

open TypedHeap.Action (Meets)
open Heap Layouts

/-! ## Without what was asked before -/

/-- The same declarations, and no layout computed. -/
def Registry.unasked (r : Registry) : Registry := { r with layouts := LayoutMemo.empty }

namespace Heap

variable {h : Heap} {t : TypeRef} {d : Descriptor} {extra n : Nat}

/-- The same heap, and no layout computed. -/
def unasked (h : Heap) : Heap := { h with registry := h.registry.unasked }

/-- A type nests deeper than the bound. -/
def Deep (h : Heap) (t : TypeRef) : Prop := ¬NestsWithin h.types (maxDepth + 1) t

theorem layout_bounded (ho : h.types.Ordered) (hs : h.registry.Sound) (t : TypeRef) :
    Bounded (h.Deep t) ((layout t).runOn h).1 ((layout t).runOn h.unasked).1 :=
  of_independent hs.types ho (LayoutMemo.sound_empty h.types) hs.layouts nofun t

theorem sizeOf_bounded (ho : h.types.Ordered) (hs : h.registry.Sound) (t : TypeRef) :
    Bounded (h.Deep t) ((sizeOf t).runOn h).1 ((sizeOf t).runOn h.unasked).1 := by
  rw [outcome_sizeOf, outcome_sizeOf]
  exact (layout_bounded ho hs t).map Layout.size

theorem alignmentOf_bounded (ho : h.types.Ordered) (hs : h.registry.Sound) (t : TypeRef) :
    Bounded (h.Deep t) ((onRegistry (Registry.alignmentOf t)).runOn h).1
      ((onRegistry (Registry.alignmentOf t)).runOn h.unasked).1 := by
  have houtcome (h : Heap) :
      ((onRegistry (Registry.alignmentOf t)).runOn h).1 = ((layout t).runOn h).1.map Layout.alignment :=
    Action.outcome_map (Registry.layout t) Layout.alignment h.registry
  rw [houtcome, houtcome]
  exact (layout_bounded ho hs t).map Layout.alignment

theorem isInline_bounded (ho : h.types.Ordered) (hs : h.registry.Sound) (t : TypeRef) :
    Bounded (h.Deep t) ((isInline t).runOn h).1 ((isInline t).runOn h.unasked).1 := by
  rw [outcome_isInline, outcome_isInline]
  show Bounded _ (h.types.descriptor t >>= _) (h.types.descriptor t >>= _)
  cases h.types.descriptor t with
  | error e => exact .same
  | ok d =>
    show Bounded _ (if d.mayBeInline = true then _ else _) (if d.mayBeInline = true then _ else _)
    by_cases hinline : d.mayBeInline = true
    · rw [if_pos hinline, if_pos hinline]
      exact (layout_bounded ho hs t).map Layout.isBits
    · rw [if_neg hinline, if_neg hinline]
      exact .same

/-! ## Allocation -/

/-- What an allocation answers once the size is known: the next start, if there is room. -/
def room (h : Heap) (n : Nat) : Except Error Value :=
  if h.limit < h.nextStart + n then .error (.outOfMemory (min (n + headerSize) maxWord) h.limit)
  else .ok (Session.object h.nextStart)

theorem outcome_place (href : d.ref = t) (hn : h.SizeFor d extra n) :
    ((place d t extra n).runOn h).1 = h.room n := by
  unfold room
  by_cases hroom : h.limit < h.nextStart + n
  · rw [if_pos hroom, runOn_place_error hroom]
  · rw [if_neg hroom]
    obtain ⟨v, hv, hrun⟩ := runOn_place href (fun hlength => (hn.word_lt hlength).2) (Nat.not_lt.1 hroom)
    have hword : Value.ofWord? v.offset = some v := Value.ofWord?_toWord (some v)
    rw [hrun, Session.object, ← hv, hword]
    rfl

theorem outcome_allocate (hs : h.registry.Sound) (hd : h.types.descriptor t = .ok d) :
    ((allocate t extra).runOn h).1 = ((payloadSize d extra).runOn h).1 >>= h.room := by
  have hsize := payloadSize_meets (h := h) d extra
  rw [allocate_eq, Action.runOn_bind_ok (Action.runOn_get h), hd,
    Action.runOn_bind_ok (Action.runOn_lift _ h)]
  rcases hrun : (payloadSize d extra).runOn h with ⟨e | n, h'⟩
  · rw [Action.runOn_bind_error hrun]
    rfl
  · have hkept := hsize.kept
    have hanswer := hsize.answer n
    rw [hrun] at hkept hanswer
    rw [Action.runOn_bind_ok hrun, outcome_place (hs.types.ref_eq hd) (hanswer rfl)]
    obtain ⟨r, -, rfl⟩ := hkept
    rfl

theorem payloadSize_bounded (ho : h.types.Ordered) (hs : h.registry.Sound) (d : Descriptor) (extra : Nat) :
    Bounded (h.Deep d.ref) ((payloadSize d extra).runOn h).1 ((payloadSize d extra).runOn h.unasked).1 := by
  have hsize := sizeOf_bounded ho hs d.ref
  have hchecked (n : Nat) : Bounded (h.Deep d.ref) ((checkedSize n).runOn h).1
      ((checkedSize n).runOn h.unasked).1 := by
    unfold checkedSize
    by_cases hn : n ≤ maxWord
    · rw [if_pos hn]
      exact .same
    · rw [if_neg hn]
      exact .same
  unfold payloadSize
  cases d.kind
  case string | buffer => exact hchecked _
  case simpleVector => exact hchecked _
  case abstract | union =>
    rw [Action.runOn_bind_ok (Action.runOn_get h), Action.runOn_bind_ok (Action.runOn_get h.unasked)]
    show Bounded _ ((liftM (h.types.render d.ref) >>= _ : HeapM Nat).runOn h).1
      ((liftM (h.types.render d.ref) >>= _ : HeapM Nat).runOn h.unasked).1
    cases h.types.render d.ref <;> exact .same
  case array =>
    cases d.params.get 1 with
    | error e => exact .same
    | ok p =>
      show Bounded _ ((if p.int?.getD (-1) ≠ extra then _ else _ : HeapM Nat).runOn h).1
        ((if p.int?.getD (-1) ≠ extra then _ else _ : HeapM Nat).runOn h.unasked).1
      by_cases hrank : p.int?.getD (-1) ≠ extra
      · rw [if_pos hrank]
        exact .same
      · rw [if_neg hrank]
        exact hsize
  all_goals
    by_cases hextra : extra ≠ 0
    · rw [if_pos hextra]
      exact .same
    · rw [if_neg hextra]
      exact hsize

theorem allocate_bounded (ho : h.types.Ordered) (hs : h.registry.Sound) (t : TypeRef) (extra : Nat) :
    Bounded (h.Deep t) ((allocate t extra).runOn h).1 ((allocate t extra).runOn h.unasked).1 := by
  cases hd : h.types.descriptor t with
  | error e =>
    have hunknown {u : Heap} (hu : u.types = h.types) :
        ((allocate t extra).runOn u).1 = .error e := by
      rw [allocate_eq, Action.runOn_bind_ok (Action.runOn_get u), hu, hd,
        Action.runOn_bind_error (Action.runOn_lift _ u)]
    rw [hunknown rfl, hunknown (u := h.unasked) rfl]
    exact .same
  | ok d =>
    have hu : h.unasked.registry.Sound := ⟨hs.types, LayoutMemo.sound_empty _⟩
    have href := hs.types.ref_eq hd
    have hsize := payloadSize_bounded ho hs d extra
    rw [href] at hsize
    rw [outcome_allocate hs hd, outcome_allocate hu hd]
    exact hsize.bind h.room

end Heap

/-- The answer of an operation is read off the layout of a type. -/
def Operation.Measures {α : Type} : Operation α → TypeRef → Prop
  | .layout s, t | .sizeOf s, t | .alignmentOf s, t | .isInline s, t | .allocate s _, t => s = t
  | _, _ => False

namespace Session

variable {α : Type} {s u : Session} {t : TypeRef} {l : Layout}

theorem Leads.grows (h : Leads s u) (hs : s.Sound) : s.heap.registry.Grows u.heap.registry :=
  h.preserves (P := fun h' => s.heap.registry.Grows h'.registry) hs (fun trail hs hg => hg.trans (trail.grows hs))
    (.refl _)

/-- The type table of a session grew out of the builtin one. -/
theorem Reachable.grown (hs : Reachable s) : TypeTable.Path TypeTable.builtin s.heap.types := by
  obtain ⟨config, barrier, h⟩ := hs
  exact (h.grows (start_sound config barrier)).types

theorem Reachable.ordered (hs : Reachable s) : s.heap.types.Ordered :=
  TypeTable.Path.ordered hs.grown TypeTable.ordered_builtin

/-- In every heap that operations lead to, layouts are those that the types have without a memo, and
a layout that is remembered is the answer for the rest of the run. -/
theorem Reachable.layouts_correct (hs : Reachable s) :
    (∀ t, reference s.heap.types t =
      s.heap.types.descriptor t >>= plain s.heap.types (reference s.heap.types)) ∧
    (∀ t l h, (Operation.layout t).perform.runOn s.heap = (.ok l, h) →
      reference s.heap.types t = .ok l ∧ h.registry.layouts.find? t = some l) ∧
    (∀ t l, s.heap.registry.layouts.find? t = some l → reference s.heap.types t = .ok l) ∧
    ∀ u, Leads s u → ∀ t l, s.heap.registry.layouts.find? t = some l →
      u.heap.registry.layouts.find? t = some l ∧ reference u.heap.types t = .ok l ∧
        (Operation.layout t).perform.runOn u.heap = (.ok l, u.heap) := by
  have hsound := hs.sound
  have htypes : s.heap.types.Sound := hsound.heap.registry.types
  have ho := hs.ordered
  have hremembered {t : TypeRef} {l : Layout} (hl : s.heap.registry.layouts.find? t = some l) :
      reference s.heap.types t = .ok l :=
    hsound.heap.registry.layouts.reference_eq_ok ho hl
  refine ⟨reference_eq ho, fun t l h hrun => ?_, fun t l => hremembered, fun u hu t l hl => ?_⟩
  · have hmeets : Meets Learns (Operation.layout t).perform s.heap
        fun l h => h.registry.layouts.find? t = some l := Heap.layout_meets t
    have hkept := hmeets.kept
    have hanswer := hmeets.answer l
    rw [hrun] at hkept hanswer
    have houtcome : ((Layouts.of s.heap.types t).runOn s.heap.registry.layouts).1 = .ok l :=
      congrArg Prod.fst hrun
    have hbounded := of_bounded htypes ho hsound.heap.registry.layouts t
    rw [houtcome] at hbounded
    exact ⟨hbounded.eq_of_ok, hanswer rfl⟩
  · have hgrows := hu.grows hsound
    have hl' := hgrows.layouts hl
    have hsound' := hu.sound hsound
    exact ⟨hl', reference_extends hgrows.extends.types (hremembered hl),
      runOn_layout hsound'.heap.registry hl'⟩

/-- The types that are registered after the builtin ones, in order. -/
def tier (k : Nat) : TypeRef := (TypeRef.ofIndex? (21 + k)).getD Builtin.any

/-- A tuple of two numbers, asked for its layout. -/
def paired : Session :=
  start ⟨64, 4096⟩ .off
    |>.next (.tupleType [Builtin.int8, Builtin.int64])
    |>.next (.layout (tier 0))

theorem reachable_paired : Reachable paired :=
  ((reachable_start _ _).next _ (allows_of_none rfl)).next _ (allows_of_none rfl)

theorem layouts_correct_paired :
    Reachable paired ∧ ∃ l, paired.heap.registry.layouts.find? (tier 0) = some l ∧
      l.size = 16 ∧ reference paired.heap.types (tier 0) = .ok l := by
  have hsize : (paired.heap.registry.layouts.find? (tier 0)).map Layout.size = some 16 := by
    decide +kernel
  obtain ⟨l, hl, hsize⟩ := Option.map_eq_some_iff.1 hsize
  exact ⟨reachable_paired, l, hl, hsize, reachable_paired.layouts_correct.2.2.1 _ l hl⟩

/-! ## The bound on nesting -/

/-- In every heap that operations lead to, an answer that is read off the layout of a type is the one that
is given when nothing was asked before, except that the latter may hit the bound on nesting, if the type
nests deeper than the bound. -/
theorem Reachable.layouts_bounded (hs : Reachable s) (o : Operation α) (ho : o.Measures t) :
    Bounded (s.heap.Deep t) (o.perform.runOn s.heap).1 (o.perform.runOn s.heap.unasked).1 := by
  have hsound := hs.sound.heap.registry
  cases o with
  | layout _ =>
    cases ho
    exact layout_bounded hs.ordered hsound t
  | sizeOf _ =>
    cases ho
    exact sizeOf_bounded hs.ordered hsound t
  | alignmentOf _ =>
    cases ho
    exact alignmentOf_bounded hs.ordered hsound t
  | isInline _ =>
    cases ho
    exact isInline_bounded hs.ordered hsound t
  | allocate _ extra =>
    cases ho
    exact allocate_bounded hs.ordered hsound t extra
  | _ => exact ho.elim

theorem layouts_bounded_paired :
    Reachable paired ∧ (Operation.allocate (tier 0) 0).Measures (tier 0) ∧
      Bounded (paired.heap.Deep (tier 0))
        ((Operation.allocate (tier 0) 0).perform.runOn paired.heap).1
        ((Operation.allocate (tier 0) 0).perform.runOn paired.heap.unasked).1 :=
  ⟨reachable_paired, rfl, reachable_paired.layouts_bounded _ rfl⟩

/-- Tuples inside each other. -/
def tower : Nat → Session
  | 0 => start ⟨64, 4096⟩ .off |>.next (.tupleType [Builtin.int8])
  | n + 1 => (tower n).next (.tupleType [tier n])

/-- Sixty-six tuples inside each other, one in the middle asked for its layout. -/
def toweredOver : Session := (tower 65).next (.layout (tier 40))

theorem reachable_tower (n : Nat) : Reachable (tower n) := by
  induction n with
  | zero => exact (reachable_start _ _).next _ (allows_of_none rfl)
  | succ n ih => exact ih.next _ (allows_of_none rfl)

/-- The layout of a type that nests deeper than the bound depends on what was asked before. -/
theorem layout_depends_on_history :
    Reachable toweredOver ∧
      ((Operation.layout (tier 65)).perform.runOn toweredOver.heap.unasked).1 =
        .error (limitError "Tuple") ∧
      ((Operation.layout (tier 65)).perform.runOn toweredOver.heap).1.toOption.isSome = true := by
  have hs : Reachable toweredOver := (reachable_tower 65).next _ (allows_of_none rfl)
  exact ⟨hs, by decide +kernel, by decide +kernel⟩

/-! ## Where fields lie -/

/-- In every heap that operations lead to, the layout of a struct or tuple, if there is an answer, has the fields
of the type in order, as close to each other as their alignments allow. -/
theorem Reachable.layout_geometry {d : Descriptor} {h : Heap} (hs : Reachable s)
    (hd : s.heap.types.descriptor t = .ok d) (hkind : d.kind = .struct ∨ d.kind = .tuple)
    (hrun : (Operation.layout t).perform.runOn s.heap = (.ok l, h)) :
    ∃ aligns, h.registry.Geometry d t l aligns := by
  have hmeets : Meets Learns (Operation.layout t).perform s.heap
      fun l h => h.registry.layouts.find? t = some l := Heap.layout_meets t
  have hkept := hmeets.kept
  have hanswer := hmeets.answer l
  rw [hrun] at hkept hanswer
  obtain ⟨r, hgrows, rfl⟩ := hkept
  exact (hgrows.sound hs.sound.heap.registry).geometry (hgrows.extends.types.descriptor hd) hkind (hanswer rfl)

/-- A pair of numbers between a number and a string. -/
def tiered : Session :=
  start ⟨64, 4096⟩ .off
    |>.next (.tupleType [Builtin.int8, Builtin.int64])
    |>.next (.tupleType [Builtin.int8, tier 0, Builtin.string])

theorem layout_geometry_nested :
    Reachable tiered ∧ ∃ d l h aligns, tiered.heap.types.descriptor (tier 1) = .ok d ∧ d.kind = .tuple ∧
      (Operation.layout (tier 1)).perform.runOn tiered.heap = (.ok l, h) ∧
      h.registry.Geometry d (tier 1) l aligns ∧ l.fields.map FieldLayout.offset = [0, 8, 24] ∧
      l.pointerOffsets = [24] ∧ l.size = 32 := by
  have hs : Reachable tiered := ((reachable_start _ _).next _ (allows_of_none rfl)).next _ (allows_of_none rfl)
  have hkind : (tiered.heap.types.descriptor (tier 1)).toOption.map Descriptor.kind = some .tuple := by
    decide +kernel
  have hanswer : ((Operation.layout (tier 1)).perform.runOn tiered.heap).1.toOption.map
      (fun l => (l.fields.map FieldLayout.offset, l.pointerOffsets, l.size)) = some ([0, 8, 24], [24], 32) := by
    decide +kernel
  cases hd : tiered.heap.types.descriptor (tier 1) with
  | error e =>
    rw [hd] at hkind
    cases hkind
  | ok d =>
    rw [hd] at hkind
    have hkind : d.kind = .tuple := Option.some.inj hkind
    rcases hrun : (Operation.layout (tier 1)).perform.runOn tiered.heap with ⟨e | l, h⟩
    · rw [hrun] at hanswer
      cases hanswer
    · rw [hrun] at hanswer
      obtain ⟨aligns, hgeometry⟩ := hs.layout_geometry hd (.inr hkind) hrun
      have hanswer : (l.fields.map FieldLayout.offset, l.pointerOffsets, l.size) = ([0, 8, 24], [24], 32) :=
        Option.some.inj hanswer
      simp only [Prod.mk.injEq] at hanswer
      exact ⟨hs, d, l, h, aligns, rfl, hkind, rfl, hgeometry, hanswer⟩

end Session

end TypedHeap
