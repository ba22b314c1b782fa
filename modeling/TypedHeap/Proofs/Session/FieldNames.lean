import TypedHeap.Proofs.Layout.Names
import TypedHeap.Proofs.Session.DeclaredFields
import TypedHeap.Proofs.Session.Fields

/-!
# Names of fields along a run

The fields of a type have different names. So the name of a field leads to its position and the position to its name,
a name that no field has is refused, and whether a field of an object is asked for by position or by name makes no
difference.

* `Heap.FieldsNamed`: what questions about names and positions answer.

Main result: `Session.Reachable.fields_named`.
-/

namespace TypedHeap

open Heap Layouts

/-- The fields of a remembered layout have different names. -/
theorem LayoutMemo.Sound.named {tt : TypeTable} {m : LayoutMemo} {t : TypeRef} {l : Layout} (h : m.Sound tt)
    (hs : tt.Sound) (hd : tt.Distinct) (hl : m.find? t = some l) : l.Named := by
  obtain ⟨d, hdesc, hdescribes⟩ := h.describes hl
  rcases hdescribes.fields_cases with hnil | ⟨fields, hfields, hproduct⟩
  · unfold Layout.Named
    rw [hnil]
    exact List.nodup_nil
  · obtain ⟨slots, hslots, -, rfl, -⟩ := h.product hproduct
    have hplaced := placed_placeFrom 0 slots
    rw [← Registry.map_of_placed hslots hplaced] at hfields
    exact (Descriptor.declares_of_fieldsOf hfields).nodup (hd _ _ (hs.family_eq hdesc))

namespace Heap

variable {h h' : Heap} {v : Value} {t : TypeRef} {l : Layout} {name : Symbol} {i : Nat}

/-! ## Questions by name -/

/-- The position of a name is the one in the layout, and a name without one is refused. -/
theorem runOn_fieldIndex (hrun : (layout t).runOn h = (.ok l, h')) (name : Symbol) :
    (onRegistry (Registry.fieldIndex t name)).runOn h =
      ((l.fieldIndex? name).elim
        (.error (.undefined ("field " ++ name.text ++ " of " ++ h'.types.renderOrRef t))) .ok, h') := by
  unfold Registry.fieldIndex
  rw [runOn_onRegistry_layout hrun]
  cases l.fieldIndex? name <;> rfl

/-- By name, a field is read as at the position of the name. -/
theorem runOn_readByName (ht : h.typeOf v = .ok t) (hrun : (layout t).runOn h = (.ok l, h))
    (hi : l.fieldIndex? name = some i) : (Record.readByName v name).runOn h = (Record.read v i).runOn h := by
  have hlook : (Action.look (·.typeOf v)).runOn h = (.ok t, h) := by rw [Action.runOn_look, ht]
  have hindex := runOn_fieldIndex hrun name
  rw [hi, Option.elim_some] at hindex
  unfold Record.readByName
  rw [Action.runOn_bind_ok hlook, Action.runOn_bind_ok hindex]

/-- Where there is no field, none is read. -/
theorem runOn_read_error {e : Error} (ht : h.typeOf v = .ok t) (hrun : (layout t).runOn h = (.ok l, h'))
    (hi : l.field i = .error e) : (Record.read v i).runOn h = (.error e, h') := by
  have hlook : (Action.look (·.typeOf v)).runOn h = (.ok t, h) := by rw [Action.runOn_look, ht]
  have hfield : (Record.fieldLayout v i).runOn h = (.error e, h') := by
    unfold Record.fieldLayout
    rw [Action.runOn_bind_ok hlook, Action.runOn_bind_ok hrun, Action.runOn_lift, hi]
  exact Action.runOn_bind_error hfield

/-- The names of the fields of a type lead to their positions, and other names are refused. Whether a field of an object
is asked for by position or by name makes no difference. -/
structure FieldsNamed (h : Heap) : Prop where
  positions : ∀ t l h', (Operation.layout t).perform.runOn h = (.ok l, h') →
    ∃ n, (Operation.typeFieldCount t).perform.runOn h = (.ok n, h') ∧
      (∀ i < n, ∃ f, (Operation.typeField t i).perform.runOn h = (.ok f, h') ∧
        (Operation.typeFieldIndex t f.name).perform.runOn h = (.ok i, h')) ∧
      ∀ name, (∀ i < n, ∀ f, ((Operation.typeField t i).perform.runOn h).1 = .ok f → f.name ≠ name) →
        (Operation.typeFieldIndex t name).perform.runOn h =
          (.error (.undefined ("field " ++ name.text ++ " of " ++ h.types.renderOrRef t)), h')
  objects : ∀ v t i, h.typeOf v = .ok t →
    (do
      let f ← (Operation.typeField t i).perform
      (Operation.fieldReadByName v f.name).perform : HeapM Datum).runOn h =
        (Operation.fieldRead v i).perform.runOn h

theorem Sound.fieldsNamed (hs : h.Sound) (hd : h.types.Distinct) : h.FieldsNamed := by
  have hnamed {t : TypeRef} {l : Layout} {h' : Heap} (hrun : (layout t).runOn h = (.ok l, h')) : l.Named := by
    obtain ⟨m, -, hm, hl⟩ := layout_remembered hs.registry hrun
    exact hm.named hs.registry.types hd hl
  have hfield {t : TypeRef} {l : Layout} {h' : Heap} (hrun : (layout t).runOn h = (.ok l, h')) (i : Nat) :
      (Operation.typeField t i).perform.runOn h = (l.field i, h') :=
    runOn_readOff (·.field i) hrun
  constructor
  · intro t l h' hrun
    refine ⟨l.fields.length, runOn_readOff (fun l => .ok l.fields.length) hrun, ?_, ?_⟩
    · intro i hi
      have hf : l.fields[i]? = some l.fields[i] := List.getElem?_eq_getElem hi
      have hindex : (Operation.typeFieldIndex t l.fields[i].name).perform.runOn h = (.ok i, h') := by
        refine (runOn_fieldIndex hrun _).trans ?_
        rw [(hnamed hrun).fieldIndex?_eq_some_iff.2 ⟨l.fields[i], hf, rfl⟩, Option.elim_some]
      refine ⟨l.fields[i], ?_, hindex⟩
      rw [hfield hrun, Layout.field_eq_ok.2 hf]
    · intro name hother
      have hnone : l.fieldIndex? name = none := by
        rw [Layout.fieldIndex?_eq_none_iff]
        intro f hf
        obtain ⟨i, hi, rfl⟩ := List.mem_iff_getElem.1 hf
        refine hother i hi l.fields[i] ?_
        rw [hfield hrun]
        exact Layout.field_eq_ok.2 (List.getElem?_eq_getElem hi)
      have hindex := runOn_fieldIndex hrun name
      rw [hnone, Option.elim_none] at hindex
      obtain ⟨m, rfl, -⟩ := layout_remembered hs.registry hrun
      exact hindex
  · intro v t i ht
    obtain ⟨l, h', hrun, hcases⟩ := hs.layout_cases ht
    have hfield := hfield hrun i
    cases hf : l.field i with
    | error e =>
      rw [hf] at hfield
      rw [Action.runOn_bind_error hfield]
      exact (runOn_read_error ht hrun hf).symm
    | ok f =>
      rw [hf] at hfield
      rw [Action.runOn_bind_ok hfield]
      have hi := (hnamed hrun).fieldIndex?_eq_some_iff.2 ⟨f, Layout.field_eq_ok.1 hf, rfl⟩
      rcases hcases with ⟨rfl, -⟩ | hnone
      · exact runOn_readByName ht hrun hi
      · have hmem := Record.mem_of_field hf
        rw [hnone] at hmem
        cases hmem

end Heap

namespace Session

variable {s : Session}

/-! ## Along a run -/

theorem Reachable.distinct (hs : Reachable s) : s.heap.types.Distinct :=
  TypeTable.Path.distinct hs.grown TypeTable.distinct_builtin

/-- In every heap that operations lead to, the names and the positions of fields lead to each other. -/
theorem Reachable.fields_named (hs : Reachable s) : s.heap.FieldsNamed :=
  hs.sound.heap.fieldsNamed hs.distinct

/-- A tuple of eleven numbers, and an object of a struct with two fields. -/
def positioned : Session :=
  start ⟨64, 4096⟩ .off
    |>.next (.tupleType (List.replicate 11 Builtin.int8))
    |>.next (.define cell)
    |>.next (.box .int8 5)
    |>.next (.newRecord (tier 1) [object 16, object 16])

/-- The eleventh field of the tuple is called 11, and there is no twelfth. What the second field of the object holds is
found under its name. -/
theorem fields_named_positioned :
    Reachable positioned ∧ positioned.heap.FieldsNamed ∧
      ((Operation.typeFieldIndex (tier 0) "11").perform.runOn positioned.heap).1 = .ok 10 ∧
      ((Operation.typeFieldIndex (tier 0) "12").perform.runOn positioned.heap).1 =
        .error (.undefined "field 12 of Tuple{Int8, Int8, Int8, Int8, Int8, Int8, Int8, Int8, Int8, Int8, Int8}") ∧
      ((do
        let f ← (Operation.typeField (tier 1) 1).perform
        (Operation.fieldReadByName (object 32) f.name).perform : HeapM Datum).runOn positioned.heap).1 =
          .ok (.ref (object 16)) := by
  have hs : Reachable positioned :=
    ((((reachable_start _ _).next _ (allows_of_none rfl)).next _ (allows_of_none rfl)).next _
      (allows_of_none rfl)).next _ (allows_of_none rfl)
  have hnamed := hs.fields_named
  have htype : positioned.heap.typeOf (object 32) = .ok (tier 1) := by decide +kernel
  refine ⟨hs, hnamed, by decide +kernel, by decide +kernel, ?_⟩
  rw [hnamed.objects _ _ 1 htype]
  decide +kernel

end Session

end TypedHeap
