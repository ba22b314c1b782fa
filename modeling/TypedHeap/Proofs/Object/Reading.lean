import TypedHeap.Object.Record
import TypedHeap.Proofs.Heap.Questions

/-!
# Reading fields

The layout of an object with fields was remembered when the object was made, so reading a field
computes nothing and leaves the heap alone.

* `Sound.exists_layout`: the layout of an object with fields is remembered.
* `Sound.layout_cases`: asking for the layout of an object does not fail.

Main results: `Record.runOn_read`, `Record.runOn_readScalar`, `Record.readRef_asks`, `Record.read_cases`.
-/

namespace TypedHeap

open TypedHeap.Action (Fails Meets runOn_bind_ok runOn_bind_error runOn_bind_asked runOn_look runOn_lift)
open Heap

variable {h : Heap} {v x : Value} {t : TypeRef} {l : Layout} {e : FieldLayout} {d : Descriptor} {i : Nat}

/-- The layout of an object that has no length of its own is remembered. -/
theorem Heap.Sound.exists_layout (hs : h.Sound) (ht : h.typeOf v = .ok t) (hd : h.types.descriptor t = .ok d)
    (hfixed : hasLength d.kind = false) : ∃ l, h.registry.layouts.find? t = some l := by
  obtain ⟨n, -, hshape⟩ := hs.shaped_of_typeOf ht hd
  unfold Shaped at hshape
  cases hkind : d.kind <;> simp only [hkind, hasLength] at hshape hfixed <;> try cases hfixed
  all_goals
    obtain ⟨l, hl, -⟩ := hshape
    exact ⟨l, hl⟩

/-- The layout of an object whose length is its own is computed without fail. -/
theorem Layouts.handle_fails {tt : TypeTable} {m : LayoutMemo} {E : Error → Prop} (hd : tt.descriptor t = .ok d)
    (hlength : hasLength d.kind = true) : Fails (Layouts.of tt t) m E := by
  unfold Layouts.of Layouts.within Layouts.memoized
  refine Fails.lift_bind (.of_eq_ok hd) fun d' hd' => Fails.get_bind ?_
  cases hd.symm.trans hd'
  split
  · exact .pure
  · refine Fails.bind_ran ?_ fun l m' _ => ?_
    · unfold Layouts.compute
      cases hkind : d.kind <;> rw [hkind] at hlength <;> first | exact .pure | cases hlength
    · unfold LayoutMemo.publish
      refine Fails.get_bind ?_
      split
      · exact .pure
      · exact .change_bind .pure

/-- The layout of an object is known, or computed without fail and has no fields. -/
theorem Heap.Sound.layout_cases (hs : h.Sound) (ht : h.typeOf v = .ok t) :
    ∃ l h', (Heap.layout t).runOn h = (.ok l, h') ∧
      (h' = h ∧ h.registry.layouts.find? t = some l ∨ l.fields = []) := by
  obtain ⟨d, n, hd, -, -⟩ := hs.exists_shaped ht
  rcases hlength : hasLength d.kind with _ | _
  · obtain ⟨l, hl⟩ := hs.exists_layout ht hd hlength
    exact ⟨l, h, Heap.runOn_layout hs.registry hl, .inl ⟨rfl, hl⟩⟩
  · have hmeets := layout_meets (h := h) t
    have hfails : Fails (Heap.layout t) h fun _ => False :=
      Fails.focus (Fails.get_bind (Fails.focus (Layouts.handle_fails hd hlength)))
    rcases hrun : (Heap.layout t).runOn h with ⟨e | l, h'⟩
    · exact absurd (hfails e (by rw [hrun])) id
    · have hl := hmeets.answer l (by rw [hrun])
      have hkept : h.Learns h' := by
        have hkept := hmeets.kept
        rwa [hrun] at hkept
      rw [hrun] at hl
      obtain ⟨d', hd', hdesc⟩ := (hs.learns hkept).registry.layouts.describes hl
      cases hd'.symm.trans (hkept.extends.descriptor hd)
      rw [Sound.handle_of_hasLength hdesc hlength]
      exact ⟨_, h', rfl, .inr rfl⟩

theorem Layout.field_eq_ok : l.field i = .ok e ↔ l.fields[i]? = some e := by
  unfold Layout.field
  split
  · rename_i f hf
    rw [hf, Except.ok.injEq, Option.some.injEq]
  · rename_i hnone
    rw [hnone]
    exact ⟨nofun, nofun⟩

namespace Record

theorem mem_of_field (hf : l.field i = .ok e) : e ∈ l.fields := List.mem_of_getElem? (Layout.field_eq_ok.1 hf)

theorem runOn_fieldLayout (hs : h.Sound) (ht : h.typeOf v = .ok t)
    (hl : h.registry.layouts.find? t = some l) (i : Nat) : (fieldLayout v i).runOn h = (l.field i, h) := by
  unfold fieldLayout
  rw [runOn_bind_ok (by rw [runOn_look, ht]), runOn_bind_ok (runOn_layout hs.registry hl), runOn_lift]

theorem runOn_read (hs : h.Sound) (ht : h.typeOf v = .ok t) (hl : h.registry.layouts.find? t = some l)
    (i : Nat) : (read v i).runOn h = (l.field i >>= datumAt h v, h) :=
  runOn_bind_asked (runOn_fieldLayout hs ht hl i) fun f h => datumAt h v f

theorem runOn_readScalar (hs : h.Sound) (ht : h.typeOf v = .ok t)
    (hl : h.registry.layouts.find? t = some l) (k : ScalarKind) (i : Nat) :
    (readScalar k v i).runOn h = (l.field i >>= datumAt h v >>= Datum.read k h, h) :=
  runOn_bind_asked (runOn_read hs ht hl i) fun d h => d.read k h

/-! ## What a field holds -/

/-- Fields lie inside objects, so their offsets in the heap are words. -/
theorem place_eq (hs : h.Sound) (ht : h.typeOf v = .ok t) (hl : h.registry.layouts.find? t = some l)
    (he : e ∈ l.fields) : place v e = .ok (v.offset + e.offset) := by
  have hend := hs.registry.layouts.end_le hl he
  have hlt := hs.end_lt (hs.size_record ht hl he)
  exact Word.add_of_lt (by omega)

theorem runOn_place (hs : h.Sound) (ht : h.typeOf v = .ok t) (hl : h.registry.layouts.find? t = some l)
    (he : e ∈ l.fields) : (liftM (place v e) : HeapM Nat).runOn h = (.ok (v.offset + e.offset), h) := by
  rw [place_eq hs ht hl he]
  rfl

theorem refAt_of_slot (hs : h.Sound) (ht : h.typeOf v = .ok t) (hl : h.registry.layouts.find? t = some l)
    (he : e ∈ l.fields) (hout : e.isInline = false) : refAt h v e (v.offset + e.offset) = match h.slot v e.offset with
      | some x => .ok x
      | none => .error (.undefined ("field " ++ e.name.text ++ " of " ++ ownerText h v)) := by
  have hend := hs.registry.layouts.end_le hl he
  rw [hs.registry.layouts.size_reference hl he hout, refSize] at hend
  have htop := hs.end_le_top (hs.size_record ht hl he)
  unfold refAt
  rw [readRef_eq (by omega)]
  cases h.slot v e.offset <;> rfl

theorem datumAt_outside (hs : h.Sound) (ht : h.typeOf v = .ok t) (hl : h.registry.layouts.find? t = some l)
    (he : e ∈ l.fields) (hout : e.isInline = false) : datumAt h v e = match h.slot v e.offset with
      | some x => .ok (.ref x)
      | none => .error (.undefined ("field " ++ e.name.text ++ " of " ++ ownerText h v)) := by
  unfold datumAt
  rw [place_eq hs ht hl he, hout]
  show (refAt h v e (v.offset + e.offset) >>= _ : Except Error Datum) = _
  rw [refAt_of_slot hs ht hl he hout]
  cases h.slot v e.offset <;> rfl

theorem datumAt_inline (hs : h.Sound) (ht : h.typeOf v = .ok t) (hl : h.registry.layouts.find? t = some l)
    (he : e ∈ l.fields) (hin : e.isInline = true) :
    datumAt h v e = .ok (.bits e.type (h.memory.window (v.offset + e.offset) e.size)) := by
  have hend := hs.registry.layouts.end_le hl he
  have htop := hs.end_le_top (hs.size_record ht hl he)
  unfold datumAt
  rw [place_eq hs ht hl he, hin]
  show (h.bytes (v.offset + e.offset) e.size >>= _ : Except Error Datum) = _
  rw [bytes_eq (by omega)]
  rfl

/-! ## Asking for a field -/

section Asks

variable (hs : h.Sound) (ht : h.typeOf v = .ok t) (hl : h.registry.layouts.find? t = some l)

include hs ht hl

/-- A field that holds a reference holds one of its type. -/
theorem read_asks (i : Nat) : Meets Eq (read v i) h fun d _ =>
    ∀ x, d.ref? = some x → ∃ e, l.field i = .ok e ∧ h.isa x e.type = .ok true := by
  refine Meets.of_runOn (runOn_read hs ht hl i) rfl fun d hd x hx => ?_
  obtain ⟨e, he, hdatum⟩ := bind_eq_ok.1 hd
  refine ⟨e, he, ?_⟩
  have hmem := mem_of_field he
  rcases hin : e.isInline with _ | _
  · rw [datumAt_outside hs ht hl hmem hin] at hdatum
    cases hslot : h.slot v e.offset with
    | none =>
      rw [hslot] at hdatum
      cases hdatum
    | some y =>
      rw [hslot] at hdatum
      cases hdatum
      cases hx
      exact hs.fields ht hl hmem hin x hslot
  · rw [datumAt_inline hs ht hl hmem hin] at hdatum
    cases hdatum
    cases hx

theorem readRef_asks (i : Nat) : Meets Eq (readRef v i) h fun x _ =>
    (read v i).runOn h = (.ok (.ref x), h) ∧ ∃ e, l.field i = .ok e ∧ h.isa x e.type = .ok true := by
  unfold readRef
  refine Meets.bind (read_asks hs ht hl i).ran fun d _ heq hd => ?_
  subst heq
  obtain ⟨hrun, hd⟩ := hd
  cases d with
  | ref x => exact Meets.pure ⟨hrun, hd x rfl⟩
  | bits => exact Meets.throw _

theorem readScalar_asks (k : ScalarKind) (i : Nat) : Meets Eq (readScalar k v i) h fun _ _ => True :=
  Meets.of_runOn (runOn_readScalar hs ht hl k i) rfl fun _ _ => trivial

theorem isDefined_asks (i : Nat) : Meets Eq (isDefined v i) h fun _ _ => True := by
  unfold isDefined
  refine Meets.bind (P := fun _ _ => True) ?_ fun e _ _ _ => ?_
  · exact Meets.of_runOn (runOn_fieldLayout hs ht hl i) rfl fun _ _ => trivial
  · exact Meets.ite (fun _ => Meets.pure trivial) fun _ => Meets.lift_bind fun _ _ =>
      Meets.look_bind fun _ _ => Meets.pure trivial

end Asks

/-! ## Fields that cannot be read -/

/-- A field is found without a change by a layout that is remembered, or it is not found. -/
theorem fieldLayout_cases (hs : h.Sound) (v : Value) (i : Nat) :
    (∃ t l e, h.typeOf v = .ok t ∧ h.registry.layouts.find? t = some l ∧ e ∈ l.fields ∧
      (fieldLayout v i).runOn h = (.ok e, h)) ∨
    ∃ err h', (fieldLayout v i).runOn h = (.error err, h') ∧
      (err = .invalidTag v.offset .notAnObject ∨ ∃ n, err = .indexOutOfRange .field i n) := by
  have hfield (l : Layout) : Raises (l.field i) fun err => ∃ n, err = .indexOutOfRange .field i n := by
    unfold Layout.field
    split
    · exact .ok
    · exact .error ⟨_, rfl⟩
  unfold fieldLayout
  cases ht : h.typeOf v with
  | error err =>
    exact .inr ⟨err, h, runOn_bind_error (by rw [runOn_look, ht]), .inl (hs.typeOf_raises v err ht)⟩
  | ok t =>
    obtain ⟨l, h', hrun, hl⟩ := hs.layout_cases ht
    rw [runOn_bind_ok (by rw [runOn_look, ht]), runOn_bind_ok hrun, runOn_lift]
    cases he : l.field i with
    | error err => exact .inr ⟨err, h', rfl, .inr (hfield l err he)⟩
    | ok e =>
      have hmem := mem_of_field he
      obtain ⟨rfl, hl⟩ | hnone := hl
      · exact .inl ⟨t, l, e, rfl, hl, hmem, rfl⟩
      · rw [hnone] at hmem
        cases hmem

/-- A field is read without a change, or it cannot be read. -/
theorem read_cases (hs : h.Sound) (v : Value) (i : Nat) :
    (∃ d, (read v i).runOn h = (.ok d, h)) ∨
    ∃ err h', (read v i).runOn h = (.error err, h') ∧ (err = .invalidTag v.offset .notAnObject ∨
      (∃ n, err = .indexOutOfRange .field i n) ∨ ∃ what, err = .undefined what) := by
  unfold read
  obtain ⟨t, l, e, ht, hl, he, hrun⟩ | ⟨err, h', hrun, herr⟩ := fieldLayout_cases hs v i
  · rw [runOn_bind_ok hrun, runOn_look]
    rcases hin : e.isInline with _ | _
    · rw [datumAt_outside hs ht hl he hin]
      cases h.slot v e.offset with
      | some x => exact .inl ⟨_, rfl⟩
      | none => exact .inr ⟨_, h, rfl, .inr (.inr ⟨_, rfl⟩)⟩
    · rw [datumAt_inline hs ht hl he hin]
      exact .inl ⟨_, rfl⟩
  · exact .inr ⟨err, h', runOn_bind_error hrun, herr.imp_right .inl⟩

end Record

end TypedHeap
