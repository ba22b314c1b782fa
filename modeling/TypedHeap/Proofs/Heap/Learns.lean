import TypedHeap.Proofs.Heap.Writes

/-!
# What a heap learns by being asked

Some questions about types are answered by computing a layout, which the registry remembers. Nothing
else changes.

* `Heap.Learns`: the registry has grown and the rest is as before.
* `Heap.layout_meets`, `sizeOf_meets`, `isInline_meets`: questions about types.
* `Heap.runOn_layout`, `runOn_sizeOf`, `runOn_isInline`: asking again.
-/

namespace TypedHeap.Heap

open TypedHeap.Action (Meets)

variable {α : Type} {h h' h'' : Heap} {v : Value} {n : Nat} {t : TypeRef} {l : Layout}

/-- The registry has learnt something, and nothing else has changed. -/
def Learns (h h' : Heap) : Prop := ∃ r, h.registry.Grows r ∧ h' = { h with registry := r }

theorem Learns.refl (h : Heap) : h.Learns h := ⟨h.registry, .refl _, rfl⟩

theorem Learns.trans (hl : h.Learns h') (hl' : h'.Learns h'') : h.Learns h'' := by
  obtain ⟨r, hr, rfl⟩ := hl
  obtain ⟨r', hr', rfl⟩ := hl'
  exact ⟨r', hr.trans hr', rfl⟩

instance : Std.Refl Learns := ⟨Learns.refl⟩

instance : Trans Learns Learns Learns := ⟨Learns.trans⟩

theorem Learns.typeOf (hl : h.Learns h') (ht : h.typeOf v = .ok t) : h'.typeOf v = .ok t := by
  obtain ⟨r, hr, rfl⟩ := hl
  obtain ⟨hlive, hend, htype, hc⟩ := typeOf_eq_ok.1 ht
  exact typeOf_eq_ok.2 ⟨hlive, hend, htype, hr.extends.types.contains hc⟩

theorem Learns.extends (hl : h.Learns h') : h.Extends h' where
  registry := by
    obtain ⟨r, hr, rfl⟩ := hl
    exact hr.extends
  size? hn := by
    obtain ⟨r, hr, rfl⟩ := hl
    exact hn
  typeOf := hl.typeOf

theorem Learns.byte_eq (hl : h.Learns h') (v : Value) (k : Nat) : h'.byte v k = h.byte v k := by
  obtain ⟨r, hr, rfl⟩ := hl
  rfl

theorem Learns.word_eq (hl : h.Learns h') (v : Value) (k : Nat) : h'.word v k = h.word v k :=
  word_congr fun j _ _ => hl.byte_eq v j

theorem Learns.slot_eq (hl : h.Learns h') (v : Value) (k : Nat) : h'.slot v k = h.slot v k :=
  slot_congr fun j _ _ => hl.byte_eq v j

theorem Learns.size?_eq (hl : h.Learns h') (v : Value) : h'.size? v = h.size? v := by
  obtain ⟨r, hr, rfl⟩ := hl
  rfl

theorem Learns.arena (hl : h.Learns h') (ha : h.Arena) : h'.Arena := by
  obtain ⟨r, hr, rfl⟩ := hl
  exact ⟨ha.aligned, ha.ordered, ha.below, ha.reach, ha.capacity, ha.limit, ha.vacant, ha.count,
    ha.allocated⟩

theorem Learns.keeps (S : Value → Nat → Prop) (hl : h.Learns h') : Keeps S h h' :=
  ⟨hl.extends, fun _ _ _ => hl.byte_eq _ _⟩

/-- A registry that was sound is sound. -/
theorem Learns.sound (hl : h.Learns h') (hs : h.registry.Sound) : h'.registry.Sound := by
  obtain ⟨r, hr, rfl⟩ := hl
  exact hr.sound hs

/-- Types that are learnt are below abstract types. -/
theorem Learns.belowAbstract (hl : h.Learns h') (hbelow : h.types.BelowAbstract) : h'.types.BelowAbstract := by
  obtain ⟨r, hr, rfl⟩ := hl
  intro name f sup
  exact TypeTable.Path.belowAbstract hr.types hbelow

/-! ## Questions about types -/

theorem onRegistry_meets {x : Action Registry α} {Q : α → Registry → Prop}
    (hx : Meets Registry.Grows x h.registry Q) :
    Meets Learns (onRegistry x) h fun a h' => Q a h'.registry :=
  Meets.focus hx (fun r hr => ⟨r, hr, rfl⟩) fun _ _ hQ => hQ

theorem onTypes_meets {x : Action TypeTable α} {Q : α → TypeTable → Prop}
    (hx : Meets TypeTable.Path x h.types Q) :
    Meets Learns (onTypes x) h fun a h' => Q a h'.types :=
  onRegistry_meets (Registry.onTypes_meets hx)

theorem layout_meets (t : TypeRef) :
    Meets Learns (layout t) h fun l h' => h'.registry.layouts.find? t = some l :=
  onRegistry_meets (Registry.layout_meets t)

/-- Asking for a layout changes nothing but the memo, which is sound and has the answer. -/
theorem layout_remembered (hs : h.registry.Sound)
    (hrun : (layout t).runOn h = (.ok l, h')) :
    ∃ m, h' = { h with registry := { h.registry with layouts := m } } ∧ m.Sound h.types ∧ m.find? t = some l := by
  have hmeets : Meets (LayoutMemo.Grows h.types) (Layouts.of h.types t) h.registry.layouts
      fun l m => m.find? t = some l := Layouts.of_meets t h.registry.layouts
  have hanswer := hmeets.answer l
  have hsound := hmeets.kept.sound hs.types hs.layouts
  obtain ⟨hl, hstate⟩ := Prod.ext_iff.1 hrun
  exact ⟨_, hstate.symm, hsound, hanswer hl⟩

theorem sizeOf_meets (t : TypeRef) : Meets Learns (sizeOf t) h fun n h' => h'.registry.Sized t n :=
  onRegistry_meets (Registry.sizeOf_meets t)

theorem isInline_meets (t : TypeRef) :
    Meets Learns (isInline t) h fun b h' => h'.registry.Inline t b :=
  onRegistry_meets (Registry.isInline_meets t)

/-! Size and alignment are parts of the layout, and so is whether a type is stored inline, if it may be. -/

theorem outcome_sizeOf (t : TypeRef) (h : Heap) :
    ((sizeOf t).runOn h).1 = ((layout t).runOn h).1.map Layout.size :=
  Action.outcome_map (Registry.layout t) Layout.size h.registry

theorem outcome_isInline (t : TypeRef) (h : Heap) :
    ((isInline t).runOn h).1 = h.types.descriptor t >>= fun d =>
      if d.mayBeInline = true then ((layout t).runOn h).1.map Layout.isBits else pure false := by
  show ((Layouts.isInline h.types t).runOn h.registry.layouts).1 = _
  unfold Layouts.isInline
  cases hd : h.types.descriptor t with
  | error e => rfl
  | ok d =>
    rw [Action.runOn_bind_ok (Action.runOn_lift _ _)]
    show _ = if d.mayBeInline = true then _ else _
    by_cases hinline : d.mayBeInline = true
    · rw [if_pos hinline, if_pos hinline]
      exact Action.outcome_map (Layouts.of h.types t) Layout.isBits h.registry.layouts
    · rw [if_neg hinline, if_neg hinline]
      rfl

/-! ## Asking again -/

theorem runOn_onRegistry (x : Action Registry α) (h : Heap) :
    (onRegistry x).runOn h =
      ((x.runOn h.registry).1, { h with registry := (x.runOn h.registry).2 }) :=
  rfl

/-- What is read off a layout starts from what asking for the layout leaves. -/
theorem runOn_onRegistry_layout (hrun : (layout t).runOn h = (.ok l, h')) (y : Layout → Action Registry α) :
    (onRegistry (Registry.layout t >>= y)).runOn h = (onRegistry (y l)).runOn h' := by
  obtain ⟨hl, rfl⟩ := Prod.ext_iff.1 hrun
  have hanswer : (Registry.layout t).runOn h.registry = (.ok l, ((Registry.layout t).runOn h.registry).2) :=
    Prod.ext hl rfl
  rw [runOn_onRegistry, Action.runOn_bind_ok hanswer]
  rfl

theorem runOn_onTypes (x : Action TypeTable α) (h : Heap) :
    (onTypes x).runOn h = ((x.runOn h.types).1,
      { h with registry := { h.registry with table := (x.runOn h.types).2 } }) :=
  rfl

theorem runOn_onTypes_congr {x y : Action TypeTable α} (hxy : x.runOn h.types = y.runOn h.types) :
    (onTypes x).runOn h = (onTypes y).runOn h := by
  rw [runOn_onTypes, runOn_onTypes, hxy]

theorem runOn_onTypes_same {x : Action TypeTable α} {r : Except Error α} (hx : x.runOn h.types = (r, h.types)) :
    (onTypes x).runOn h = (r, h) := by
  rw [runOn_onTypes, hx]
  rfl

theorem runOn_layout (hs : h.registry.Sound) (hl : h.registry.layouts.find? t = some l) :
    (layout t).runOn h = (.ok l, h) := by
  rw [layout, runOn_onRegistry, Registry.runOn_layout hs hl]

theorem runOn_sizeOf (hs : h.registry.Sound) (hn : h.registry.Sized t n) :
    (sizeOf t).runOn h = (.ok n, h) := by
  rw [sizeOf, runOn_onRegistry, Registry.runOn_sizeOf hs hn]

theorem runOn_isInline {b : Bool} (hb : h.registry.Inline t b) :
    (isInline t).runOn h = (.ok b, h) := by
  rw [isInline, runOn_onRegistry, Registry.runOn_isInline hb]

end TypedHeap.Heap
