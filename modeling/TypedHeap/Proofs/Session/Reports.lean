import TypedHeap.Proofs.Layout.Sameness
import TypedHeap.Proofs.Session.Boxing

/-!
# Reports do not depend on history

Two runs may register the same type under different numbers, next to other types and in another order. How the
type is shown, where its fields lie and what the report on its layout says is the same in both.

* `Report.layoutOf_alike`: layouts that are alike give the same report.

Main result: `Session.Reachable.reports_alike`.
-/

namespace TypedHeap

open Layouts

/-! ## Reports on layouts that are alike -/

namespace Report

variable {r r' : Registry} {t u : TypeRef} {f g : FieldLayout} {fs gs : List FieldLayout} {l m : Layout}
  {name : String} {e : Error}

/-- The same type is shown by the same text. -/
def ShowsAlike (r r' : Registry) : Prop :=
  ∀ a b, r.table.Same r'.table a b → ∃ text, r.table.render a = .ok text ∧ r'.table.render b = .ok text

theorem fieldRow_alike (hshown : ShowsAlike r r') (h : f.Alike (r.table.Same r'.table) g) (i : Nat) :
    ∃ row, (fieldRow i f).runOn r = (.ok row, r) ∧ (fieldRow i g).runOn r' = (.ok row, r') := by
  obtain ⟨text, hf, hg⟩ := hshown _ _ h.type
  unfold fieldRow
  rw [Action.runOn_bind_ok (Action.runOn_get r), Action.runOn_bind_ok (Action.runOn_get r'), hf, hg,
    Action.runOn_bind_ok (Action.runOn_lift _ r), Action.runOn_bind_ok (Action.runOn_lift _ r'), h.name, h.offset,
    h.size, h.isInline]
  exact ⟨_, rfl, rfl⟩

theorem rows_alike (hshown : ShowsAlike r r') (h : List.Forall₂ (FieldLayout.Alike (r.table.Same r'.table)) fs gs)
    (k : Nat) : ∃ rows, ((fs.zipIdx k).mapM fun (f, i) => fieldRow i f).runOn r = (.ok rows, r) ∧
      ((gs.zipIdx k).mapM fun (g, i) => fieldRow i g).runOn r' = (.ok rows, r') := by
  induction h generalizing k with
  | nil => exact ⟨[], rfl, rfl⟩
  | cons hf _ ih =>
    obtain ⟨row, hrow, hrow'⟩ := fieldRow_alike hshown hf k
    obtain ⟨rows, hrows, hrows'⟩ := ih (k + 1)
    refine ⟨row :: rows, ?_, ?_⟩
    · rw [List.zipIdx_cons, List.mapM_cons, Action.runOn_bind_ok hrow, Action.runOn_bind_ok hrows]
      rfl
    · rw [List.zipIdx_cons, List.mapM_cons, Action.runOn_bind_ok hrow', Action.runOn_bind_ok hrows']
      rfl

/-- There is no report on a type that has no layout. -/
theorem layoutOf_error (hname : r.table.lookup name = some t) (h : ((Registry.layout t).runOn r).1 = .error e) :
    ((layoutOf name).runOn r).1 = .error e := by
  unfold layoutOf
  rw [Action.runOn_bind_ok (Action.runOn_get r), hname, Action.runOn_bind_error (Prod.ext h rfl)]

/-- What a report says, once there is a layout. -/
theorem layoutOf_ok {d : Descriptor} {text : String} {rows : List String} (hname : r.table.lookup name = some t)
    (hl : (Registry.layout t).runOn r = (.ok l, r')) (hd : r'.table.descriptor t = .ok d)
    (htext : r'.table.render t = .ok text)
    (hrows : (l.fields.zipIdx.mapM fun (f, i) => fieldRow i f).runOn r' = (.ok rows, r')) :
    ((layoutOf name).runOn r).1 = .ok (summary text l ++
      "  family hash " ++ hexPadded 16 d.family.hash.toNat ++ "\n" ++ String.join rows ++ pointers l) := by
  unfold layoutOf
  rw [Action.runOn_bind_ok (Action.runOn_get r), hname]
  show ((Registry.layout t >>= _ : Action Registry String).runOn r).1 = _
  rw [Action.runOn_bind_ok hl, Action.runOn_bind_ok (Action.runOn_get r')]
  show ((liftM (r'.table.descriptor t) >>= _ : Action Registry String).runOn r').1 = _
  rw [hd, Action.runOn_bind_ok (Action.runOn_lift _ r'), Action.runOn_bind_ok hrows, htext,
    Action.runOn_bind_ok (Action.runOn_lift _ r')]
  rfl

/-- The reports on layouts that are alike are the same text. -/
theorem layoutOf_alike (hshown : ShowsAlike r r') (h : r.table.Same r'.table t u)
    (hname : r.table.lookup name = some t) (hname' : r'.table.lookup name = some u)
    (hl : ((Registry.layout t).runOn r).1 = .ok l) (hm : ((Registry.layout u).runOn r').1 = .ok m)
    (halike : l.Alike (r.table.Same r'.table) m) :
    ∃ text, ((layoutOf name).runOn r).1 = .ok text ∧ ((layoutOf name).runOn r').1 = .ok text := by
  obtain ⟨d, e, hd, he, hde⟩ := TypeTable.same_iff.1 h
  obtain ⟨text, htext, htext'⟩ := hshown t u h
  -- Computing the layouts leaves the types as they are.
  have hshown' : ShowsAlike ((Registry.layout t).runOn r).2 ((Registry.layout u).runOn r').2 := hshown
  obtain ⟨rows, hrows, hrows'⟩ := rows_alike hshown' halike.fields 0
  have hreport := layoutOf_ok hname (Prod.ext hl rfl) hd htext hrows
  have hreport' := layoutOf_ok hname' (Prod.ext hm rfl) he htext' hrows'
  refine ⟨_, hreport, ?_⟩
  rw [hreport', summary, summary, pointers, pointers, hde.hash_eq, halike.size, halike.alignment, halike.isBits,
    halike.hasPadding, halike.pointerOffsets]

end Report

/-! ## Along two runs -/

namespace Session

variable {s u : Session} {t v : TypeRef} {l : Layout} {name : String}

/-- What the runs that lead to two sessions tell about a type of each, if these are the same type. -/
structure ReportsAlike (s u : Session) (t v : TypeRef) : Prop where
  /-- The type is shown by one text. -/
  shown : ∃ text, s.heap.types.render t = .ok text ∧ u.heap.types.render v = .ok text
  /-- Layouts, where there are any, agree in everything but the numbers of types. -/
  layouts : ∀ l m, s.answer (.layout t) = .ok l → u.answer (.layout v) = .ok m →
    l.Alike (s.heap.types.Same u.heap.types) m
  /-- A type without parameters is found under one name. -/
  found : ∀ name : String, s.heap.types.lookup name = some t → u.heap.types.lookup name = some v
  /-- Where there are layouts, reports are printed. -/
  printed : ∀ name : String, s.heap.types.lookup name = some t →
    ∀ l m, s.answer (.layout t) = .ok l → u.answer (.layout v) = .ok m →
      ∃ text, s.answer (.reportLayout name) = .ok text ∧ u.answer (.reportLayout name) = .ok text
  /-- What is printed is one text. -/
  reports : ∀ name : String, s.heap.types.lookup name = some t →
    ∀ text text', s.answer (.reportLayout name) = .ok text → u.answer (.reportLayout name) = .ok text' → text = text'
  /-- Whether something is printed depends on history only for types that nest deeper than the bound. -/
  outcomes : ∀ name : String, s.heap.types.lookup name = some t → ¬s.heap.Deep t →
    s.answer (.reportLayout name) = u.answer (.reportLayout name)

/-- The answer to a question about a layout is the layout that the type has without a memo. -/
theorem Reachable.reference_of_answer (hs : Reachable s) (hl : s.answer (.layout t) = .ok l) :
    reference s.heap.types t = .ok l := by
  obtain ⟨m, -, hm, hfound⟩ := Heap.layout_remembered hs.sound.heap.registry (Prod.ext hl rfl)
  exact hm.reference_eq_ok hs.ordered hfound

/-- Of a type that does not nest deeper than the bound, the answer is the outcome without a memo. -/
theorem Reachable.answer_layout (hs : Reachable s) (ht : ¬s.heap.Deep t) :
    s.answer (.layout t) = reference s.heap.types t :=
  (of_bounded hs.sound.heap.registry.types hs.ordered hs.sound.heap.registry.layouts t).eq_of_not ht

/-- There is no report on a type that has no layout. -/
theorem answer_report_error {e : Error} (hname : s.heap.types.lookup name = some t)
    (he : s.answer (.layout t) = .error e) : s.answer (.reportLayout name) = .error e :=
  Report.layoutOf_error hname he

theorem layout_of_report {text : String} (hname : s.heap.types.lookup name = some t)
    (hreport : s.answer (.reportLayout name) = .ok text) : ∃ l, s.answer (.layout t) = .ok l := by
  cases hlayout : s.answer (.layout t) with
  | ok l => exact ⟨l, rfl⟩
  | error e =>
    rw [answer_report_error hname hlayout] at hreport
    cases hreport

/-- In any two heaps that operations lead to, a type that is the same in both is shown by the same text, has layouts
that agree in everything but the numbers of types, and is reported on by the same text. -/
theorem Reachable.reports_alike (hs : Reachable s) (hu : Reachable u) (h : s.heap.types.Same u.heap.types t v) :
    s.ReportsAlike u t v := by
  have htypes : s.heap.types.Sound := hs.sound.heap.registry.types
  have htypes' : u.heap.types.Sound := hu.sound.heap.registry.types
  have hshown : Report.ShowsAlike s.heap.registry u.heap.registry := fun a b hab =>
    hab.exists_render htypes htypes' hs.ordered hu.ordered
  have hagree := h.reference_agree htypes htypes' hs.ordered hu.ordered
  have hlayouts (l m : Layout) (hl : s.answer (.layout t) = .ok l) (hm : u.answer (.layout v) = .ok m) :
      l.Alike (s.heap.types.Same u.heap.types) m := by
    rw [hs.reference_of_answer hl, hu.reference_of_answer hm] at hagree
    cases hagree with
    | ok halike => exact halike
  have hfound (name : String) (hname : s.heap.types.lookup name = some t) : u.heap.types.lookup name = some v :=
    h.lookup htypes htypes' hname
  have hprinted (name : String) (hname : s.heap.types.lookup name = some t) (l m : Layout)
      (hl : s.answer (.layout t) = .ok l) (hm : u.answer (.layout v) = .ok m) :
      ∃ text, s.answer (.reportLayout name) = .ok text ∧ u.answer (.reportLayout name) = .ok text :=
    Report.layoutOf_alike hshown h hname (hfound name hname) hl hm (hlayouts l m hl hm)
  refine ⟨hshown t v h, hlayouts, hfound, hprinted, ?_, ?_⟩
  · intro name hname text text' htext htext'
    obtain ⟨l, hl⟩ := layout_of_report hname htext
    obtain ⟨m, hm⟩ := layout_of_report (hfound name hname) htext'
    obtain ⟨both, hboth, hboth'⟩ := hprinted name hname l m hl hm
    cases htext.symm.trans hboth
    cases htext'.symm.trans hboth'
    rfl
  · intro name hname hdeep
    have hdeep' : ¬u.heap.Deep v := fun hdeep' => hdeep' (h.nestsWithin hs.ordered (Classical.not_not.1 hdeep))
    rw [← hs.answer_layout hdeep, ← hu.answer_layout hdeep'] at hagree
    generalize hl : s.answer (.layout t) = x at hagree
    generalize hm : u.answer (.layout v) = y at hagree
    cases hagree with
    | @ok l m =>
      obtain ⟨text, htext, htext'⟩ := hprinted name hname l m hl hm
      rw [htext, htext']
    | error e => rw [answer_report_error hname hl, answer_report_error (hfound name hname) hm]

/-! ## Two runs in another order -/

/-- A family whose instances are told apart by a number. -/
def mark : Declaration := { name := "Mark", kind := .struct, params := ["N"] }

/-- A struct that is called what the first of these instances is shown as. -/
def namesake : Declaration := { name := "Mark\x7b1\x7d", kind := .struct }

/-- A struct of a number, a pair and one of two things. -/
def sample (pair either : TypeRef) : Declaration :=
  { name := "Sample", kind := .struct
    fields := [("flag", .type Builtin.int8), ("pair", .type pair), ("either", .type either)] }

/-- The struct is registered before the instance that is shown alike. -/
def forward : Session :=
  start ⟨64, 4096⟩ .off
    |>.next (.define namesake)
    |>.next (.declare mark)
    |>.next (.apply "Mark" [.int 1])
    |>.next (.tupleType [Builtin.int8, Builtin.int64])
    |>.next (.union [tier 0, tier 1])
    |>.next (.define (sample (tier 2) (tier 3)))

/-- The struct is registered after the instance that is shown alike, and a layout is asked for in between. -/
def backward : Session :=
  start ⟨64, 4096⟩ .off
    |>.next (.declare mark)
    |>.next (.apply "Mark" [.int 1])
    |>.next (.tupleType [Builtin.int8, Builtin.int64])
    |>.next (.layout (tier 1))
    |>.next (.define namesake)
    |>.next (.union [tier 2, tier 0])
    |>.next (.tupleType [Builtin.symbol])
    |>.next (.define (sample (tier 1) (tier 3)))

theorem reachable_forward : Reachable forward :=
  ((((((reachable_start _ _).next _ (allows_of_none rfl)).next _ (allows_of_none rfl)).next _
    (allows_of_none rfl)).next _ (allows_of_none rfl)).next _ (allows_of_none rfl)).next _ (allows_of_none rfl)

theorem reachable_backward : Reachable backward :=
  ((((((((reachable_start _ _).next _ (allows_of_none rfl)).next _ (allows_of_none rfl)).next _
    (allows_of_none rfl)).next _ (allows_of_none rfl)).next _ (allows_of_none rfl)).next _
      (allows_of_none rfl)).next _ (allows_of_none rfl)).next _ (allows_of_none rfl)

/-- The last struct of the one run is that of the other, since what it is made of is. -/
theorem same_sample : forward.heap.types.Same backward.heap.types (tier 4) (tier 5) := by
  have hbuiltin (t : TypeRef) (ht : TypeTable.builtin.contains t = true) :
      forward.heap.types.Same backward.heap.types t t :=
    TypeTable.same_of_extends TypeTable.ordered_builtin reachable_forward.sound.heap.registry.types.builtin
      reachable_backward.sound.heap.registry.types.builtin ht
  have hnamesake : forward.heap.types.Same backward.heap.types (tier 0) (tier 2) :=
    TypeTable.same_of_params (f := namesake.family) (by decide +kernel) (by decide +kernel) (by decide) rfl .nil
  have hmark : forward.heap.types.Same backward.heap.types (tier 1) (tier 0) :=
    TypeTable.same_of_params (f := mark.family) (by decide +kernel) (by decide +kernel) (by decide) rfl
      (.cons (.int 1) .nil)
  have hpair : forward.heap.types.Same backward.heap.types (tier 2) (tier 1) :=
    TypeTable.same_of_params (f := Builtin.tupleFamily) (by decide +kernel) (by decide +kernel) (by decide) rfl
      (.cons (.type (hbuiltin Builtin.int8 (by decide))) (.cons (.type (hbuiltin Builtin.int64 (by decide))) .nil))
  have heither : forward.heap.types.Same backward.heap.types (tier 3) (tier 3) := by
    refine .intro (d := ⟨tier 3, Builtin.unionFamily, Params.ofTypes [tier 0, tier 1]⟩)
      (e := ⟨tier 3, Builtin.unionFamily, Params.ofTypes [tier 0, tier 2]⟩) (by decide +kernel)
      (by decide +kernel) ⟨rfl, rfl, rfl, rfl, fun h => absurd rfl h, fun _ => ?_, .nil⟩ fun _ _ h => h
    simp [Descriptor.memberTypes, hnamesake, hmark]
  have hfield {x : Symbol} {a b : TypeRef} {d e : Descriptor} (hab : forward.heap.types.Same backward.heap.types a b) :
      x = x ∧ ∀ s t, d.resolve (.type a) = .ok s → e.resolve (.type b) = .ok t →
        forward.heap.types.Same backward.heap.types s t := by
    refine ⟨rfl, fun s t hs ht => ?_⟩
    cases hs
    cases ht
    exact hab
  refine .intro (d := ⟨tier 4, (sample (tier 2) (tier 3)).family, []⟩)
    (e := ⟨tier 5, (sample (tier 1) (tier 3)).family, []⟩) (by decide +kernel) (by decide +kernel)
    ⟨rfl, rfl, rfl, rfl, fun _ => .nil, fun h => absurd h (by decide), ?_⟩ fun _ _ h => h
  exact .cons (hfield (hbuiltin _ (by decide))) (.cons (hfield hpair) (.cons (hfield heither) .nil))

/-- Two members of the union are shown alike, and stand in another order in each run. The reports say the same. -/
theorem reports_alike_reordered :
    Reachable forward ∧ Reachable backward ∧ forward.heap.types.Same backward.heap.types (tier 4) (tier 5) ∧
      forward.ReportsAlike backward (tier 4) (tier 5) ∧ forward.heap.types.lookup "Sample" = some (tier 4) ∧
      ∃ text, forward.answer (.reportLayout "Sample") = .ok text ∧
        backward.answer (.reportLayout "Sample") = .ok text := by
  have halike := reachable_forward.reports_alike reachable_backward same_sample
  have hlookup : forward.heap.types.lookup "Sample" = some (tier 4) := by decide +kernel
  have hsize : (forward.answer (.layout (tier 4))).toOption.map Layout.size = some 32 := by decide +kernel
  have hsize' : (backward.answer (.layout (tier 5))).toOption.map Layout.size = some 32 := by decide +kernel
  obtain ⟨l, hl, -⟩ := exists_answer hsize
  obtain ⟨m, hm, -⟩ := exists_answer hsize'
  exact ⟨reachable_forward, reachable_backward, same_sample, halike, hlookup,
    halike.printed "Sample" hlookup l m hl hm⟩

end Session

end TypedHeap
