import TypedHeap.Proofs.Session.Layouts

/-!
# Declared fields along a run

What a struct declares are its fields: the layout has them in order, under their names, with the types that the
parameters of the instance give them, and whoever counts or names fields is told the same. No other family has
fields, except that bits may be declared with some. Those are in the description of the family only.

* `TypeTable.Fielded`: which families declare fields.
* `Descriptor.LaysOut`: a layout has the fields that a family declares.
* `Heap.FieldsDeclared`: what questions about fields have in common.

Main result: `Session.Reachable.fields_declared`.
-/

namespace TypedHeap

open Heap Layouts

/-! ## Families with fields -/

namespace TypeTable

variable {tt tt' : TypeTable}

/-- A family that declares fields is one of structs, or of bits. -/
def Fielded (tt : TypeTable) : Prop :=
  ∀ name f, tt.family? name = some f → f.fields ≠ [] →
    f.kind = .struct ∨ ∃ size align, f.kind = .primitive size align

theorem fielded_of_validate {d : Declaration} (h : tt.validate d = .ok ()) (hfields : d.fields ≠ []) :
    d.family.kind = .struct ∨ ∃ size align, d.family.kind = .primitive size align := by
  unfold validate at h
  split at h
  · cases h
  · obtain ⟨_, hkind, -⟩ := bind_eq_ok.1 h
    unfold validateKind at hkind
    show d.kind.typeKind = _ ∨ ∃ size align, d.kind.typeKind = _
    cases hd : d.kind with
    | struct => exact .inl rfl
    | primitive size align => exact .inr ⟨size, align, rfl⟩
    | abstract =>
      rw [hd] at hkind
      obtain ⟨hempty, -⟩ := guard_eq_ok.1 hkind
      simp only [Bool.not_eq_true', List.isEmpty_eq_false_iff] at hempty
      exact absurd hfields hempty

theorem Step.fielded (h : tt.Step tt') (hf : tt.Fielded) : tt'.Fielded := by
  intro name f hfamily hfields
  cases h with
  | family d valid free =>
    rw [family?_addFamily] at hfamily
    split at hfamily
    · cases hfamily
      exact fielded_of_validate valid (d.family_fields ▸ hfields)
    · exact hf name f hfamily hfields
  | applied => exact hf name f hfamily hfields

theorem Path.fielded (h : Path tt tt') (hf : tt.Fielded) : tt'.Fielded := h.preserves Step.fielded hf

theorem fielded_builtin : TypeTable.builtin.Fielded := by
  intro name f hfamily hfields
  have hall : ∀ f ∈ builtin.families, f.fields = [] ∨ f.kind = .struct := by decide
  rcases hall f (List.mem_of_find?_eq_some hfamily) with h | h
  · exact absurd h hfields
  · exact .inl h

end TypeTable

/-! ## Layouts with the declared fields -/

/-- Fields have the names that a family declares, in order, and the types that the parameters of an instance give
them. -/
def Descriptor.LaysOut (d : Descriptor) (fs : List FieldLayout) : Prop :=
  List.Forall₂ (fun p f => f.name = p.1 ∧ d.resolve p.2 = .ok f.type) d.family.fields fs

/-- What is neither struct nor tuple is laid out without fields. -/
theorem Layouts.Describes.fields_eq_nil {tt : TypeTable} {m : LayoutMemo} {d : Descriptor} {l : Layout}
    (h : Describes tt m d l) (hstruct : d.kind ≠ .struct) (htuple : d.kind ≠ .tuple) : l.fields = [] := by
  rcases h.fields_cases with hnil | ⟨fields, ⟨hkind, -⟩ | ⟨hkind, -⟩, -⟩
  · exact hnil
  · exact absurd hkind hstruct
  · exact absurd hkind htuple

/-- Structs have the fields that they declare, and what is neither struct nor tuple nor bits has and declares none. -/
theorem Registry.Sound.laysOut {r : Registry} {t : TypeRef} {d : Descriptor} {l : Layout} (hr : r.Sound)
    (hf : r.table.Fielded) (hd : r.table.descriptor t = .ok d)
    (hl : r.layouts.find? t = some l) (htuple : d.kind ≠ .tuple)
    (hbits : ∀ size align, d.kind ≠ .primitive size align) : d.LaysOut l.fields := by
  by_cases hstruct : d.kind = .struct
  · obtain ⟨aligns, hgeometry⟩ := hr.geometry hd (.inl hstruct) hl
    have hdeclared := hgeometry.declared
    unfold Descriptor.Declares at hdeclared
    rwa [hstruct] at hdeclared
  · obtain ⟨d', hd', hdesc⟩ := hr.layouts.describes hl
    cases hd.symm.trans hd'
    have hnone : d.family.fields = [] := by
      by_contra hfields
      rcases hf _ _ (hr.types.family_eq hd) hfields with h | ⟨size, align, h⟩
      · exact hstruct h
      · exact hbits size align h
    unfold Descriptor.LaysOut
    rw [hnone, hdesc.fields_eq_nil hstruct htuple]
    exact .nil

namespace Heap

variable {α : Type} {h h' : Heap} {v : Value} {t : TypeRef} {l : Layout}

/-! ## Questions about fields -/

/-- What is read off a layout is what the layout says, and asking for it leaves what asking for the layout leaves. -/
theorem runOn_readOff (f : Layout → Except Error α) (hrun : (layout t).runOn h = (.ok l, h')) :
    (onRegistry (Registry.layout t >>= fun l => liftM (f l))).runOn h = (f l, h') := by
  rw [runOn_onRegistry_layout hrun, runOn_onRegistry, Action.runOn_lift]

theorem runOn_fieldCount (ht : h.typeOf v = .ok t) (hrun : (layout t).runOn h = (.ok l, h')) :
    (Operation.fieldCount v).perform.runOn h = (.ok l.fields.length, h') := by
  have hlook : (Action.look (·.typeOf v)).runOn h = (.ok t, h) := by rw [Action.runOn_look, ht]
  show (Record.fieldCount v).runOn h = _
  unfold Record.fieldCount
  rw [Action.runOn_bind_ok hlook, Action.runOn_bind_ok hrun, Action.runOn_pure]

/-- Fields as families declare them, as layouts have them, and as they are counted and asked for. -/
structure FieldsDeclared (h : Heap) : Prop where
  families : h.types.Fielded
  layouts : ∀ t l h', (Operation.layout t).perform.runOn h = (.ok l, h') →
    ∃ d, h.types.descriptor t = .ok d ∧ h.types.family? d.name = some d.family ∧
      (d.kind ≠ .tuple → (∀ size align, d.kind ≠ .primitive size align) → d.LaysOut l.fields) ∧
      ∀ size align, d.kind = .primitive size align → l.fields = []
  /-- The fields of a type are counted and asked for by their place in the layout, and so are those of its objects. -/
  answers : ∀ t l h', (Operation.layout t).perform.runOn h = (.ok l, h') →
    (Operation.typeFieldCount t).perform.runOn h = (.ok l.fields.length, h') ∧
    (∀ i, (Operation.typeField t i).perform.runOn h = (l.field i, h')) ∧
    ∀ v, h.typeOf v = .ok t → (Operation.fieldCount v).perform.runOn h = (.ok l.fields.length, h')

theorem Sound.fieldsDeclared (hs : h.Sound) (hf : h.types.Fielded) : h.FieldsDeclared where
  families := hf
  layouts t l h' hrun := by
    obtain ⟨m, rfl, hm, hl⟩ := layout_remembered hs.registry hrun
    have hr : ({ h.registry with layouts := m } : Registry).Sound := ⟨hs.registry.types, hm⟩
    obtain ⟨d, hd, hdesc⟩ := hm.describes hl
    refine ⟨d, hd, hs.registry.types.family_eq hd, hr.laysOut hf hd hl, fun size align hkind => ?_⟩
    exact hdesc.fields_eq_nil (by rw [hkind]; nofun) (by rw [hkind]; nofun)
  answers t l h' hrun :=
    ⟨runOn_readOff (fun l => .ok l.fields.length) hrun, fun i => runOn_readOff (·.field i) hrun,
      fun v ht => runOn_fieldCount ht hrun⟩

end Heap

namespace Session

variable {s : Session}

/-! ## Along a run -/

theorem Reachable.fielded (hs : Reachable s) : s.heap.types.Fielded :=
  TypeTable.Path.fielded hs.grown TypeTable.fielded_builtin

/-- In every heap that operations lead to, the fields that a family declares are those that its instances have, unless
it is a family of bits. -/
theorem Reachable.fields_declared (hs : Reachable s) : s.heap.FieldsDeclared :=
  hs.sound.heap.fieldsDeclared hs.fielded

/-- A struct with a number and a field of the type that it is applied to. -/
def tagged : Declaration where
  name := "Tagged"
  kind := .struct
  params := ["T"]
  fields := [("tag", .type Builtin.int8), ("value", .param 0)]

/-- A byte that declares a field. -/
def mislabeled : Declaration where
  name := "Mislabeled"
  kind := .primitive 1 1
  fields := [("x", .type Builtin.int8)]

/-- The struct for strings, and the byte. -/
def labels : Session :=
  start ⟨64, 4096⟩ .off
    |>.next (.declare tagged)
    |>.next (.apply "Tagged" [.type Builtin.string])
    |>.next (.define mislabeled)

theorem reachable_labels : Reachable labels :=
  (((reachable_start _ _).next _ (allows_of_none rfl)).next _ (allows_of_none rfl)).next _ (allows_of_none rfl)

/-- The struct has its two fields in order, the second one as a string. -/
theorem fields_declared_labels :
    Reachable labels ∧ ∃ d l h, labels.heap.types.descriptor (tier 0) = .ok d ∧ d.family = tagged.family ∧
      (Operation.layout (tier 0)).perform.runOn labels.heap = (.ok l, h) ∧ d.LaysOut l.fields ∧
      l.fields.map FieldLayout.type = [Builtin.int8, Builtin.string] ∧
      (Operation.typeFieldCount (tier 0)).perform.runOn labels.heap = (.ok 2, h) := by
  have hfamily : (labels.heap.types.descriptor (tier 0)).toOption.map Descriptor.family = some tagged.family := by
    decide +kernel
  have hanswer : ((Operation.layout (tier 0)).perform.runOn labels.heap).1.toOption.map
      (fun l => l.fields.map FieldLayout.type) = some [Builtin.int8, Builtin.string] := by decide +kernel
  rcases hrun : (Operation.layout (tier 0)).perform.runOn labels.heap with ⟨e | l, h⟩
  · rw [hrun] at hanswer
    cases hanswer
  rw [hrun] at hanswer
  have hfields := Option.some.inj hanswer
  obtain ⟨-, hlayouts, hanswers⟩ := reachable_labels.fields_declared
  obtain ⟨d, hd, -, hlaysOut, -⟩ := hlayouts _ l h hrun
  rw [hd] at hfamily
  have hd' : d.family = tagged.family := Option.some.inj hfamily
  have hkind : d.kind = .struct := congrArg Family.kind hd'
  have hlength : l.fields.length = 2 := by simpa using congrArg List.length hfields
  have hcount := (hanswers _ l h hrun).1
  rw [hlength] at hcount
  have hdeclared := hlaysOut (by rw [hkind]; nofun) (by rw [hkind]; nofun)
  exact ⟨reachable_labels, d, l, h, hd, hd', rfl, hdeclared, hfields, hcount⟩

/-- Bits may be declared with fields that their layout does not have. -/
theorem declared_without_place :
    Reachable labels ∧ labels.heap.types.family? "Mislabeled" = some mislabeled.family ∧
      mislabeled.family.kind = .primitive 1 1 ∧ mislabeled.family.fields.length = 1 ∧
      (labels.heap.types.descriptor (tier 1)).toOption.map Descriptor.family = some mislabeled.family ∧
      ((Operation.layout (tier 1)).perform.runOn labels.heap).1.toOption.map Layout.fields = some [] :=
  ⟨reachable_labels, by decide +kernel, rfl, rfl, by decide +kernel, by decide +kernel⟩

end Session

end TypedHeap
