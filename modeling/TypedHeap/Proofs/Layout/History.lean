import TypedHeap.Proofs.Layout.Reference

/-!
# Layouts and what was asked before

A memo may hold the layouts of some types already when another layout is asked for. It is looked at
before the bound on nesting, so a layout that is out of reach from an empty memo may be within reach from
a fuller one. Nothing else depends on the memo.

* `Layouts.Holds`, `Layouts.NestsWithin`: types inside types, and how deep they nest.
* `LayoutMemo.Adds`: what a computation may remember.
* `Layouts.Follows`: what is answered from one memo is answered from a memo that holds more.
* `Layouts.Bounded`: an outcome, or the error that the bound was hit.

Main results: `within_follows`, `of_bounded`, `of_independent`.
-/

namespace TypedHeap

open TypedHeap.Action (Meets)

namespace Layouts

open LayoutMemo

variable {α β : Type} {tt : TypeTable} {m m' m₁ : LayoutMemo} {s t : TypeRef} {d : Descriptor} {l : Layout}
  {depth depth' : Nat} {P : TypeRef → Prop} {layoutOf : TypeRef → Action LayoutMemo Layout}

/-! ## Types inside types -/

/-- A type has a field of another one, whose values may be stored inline. -/
def Holds (tt : TypeTable) (t s : TypeRef) : Prop :=
  ∃ d fields e, tt.descriptor t = .ok d ∧ FieldsOf d fields ∧ s ∈ fields.map Prod.snd ∧
    tt.descriptor s = .ok e ∧ e.mayBeInline = true

/-- A type stands inside another one, or is it. -/
abbrev Inside (tt : TypeTable) : TypeRef → TypeRef → Prop := Relation.ReflTransGen (Holds tt)

/-- Types that may be stored inline nest in a type at most `n` deep, the type itself included. -/
def NestsWithin (tt : TypeTable) : Nat → TypeRef → Prop
  | 0, _ => False
  | n + 1, t => ∀ s, Holds tt t s → NestsWithin tt n s

/-- The layout of a product is remembered together with the layouts of the types that it holds. -/
theorem exists_find?_of_holds (hm : m.Sound tt) (h : Holds tt t s) (hl : m.find? t = some l) :
    ∃ k, m.find? s = some k := by
  obtain ⟨d, fields, e, hd, hfields, hmem, he, hinline⟩ := h
  obtain ⟨d', hd', hdesc⟩ := hm.describes hl
  rw [hd] at hd'
  cases hd'
  obtain ⟨fields', hfields', hproduct⟩ := hdesc.product (hfields.imp And.left And.left)
  obtain rfl := hfields.unique hfields'
  obtain ⟨slots, hslots, -⟩ := hproduct
  obtain ⟨p, hp, rfl⟩ := List.mem_map.1 hmem
  clear hfields hfields' hmem hl hdesc
  induction hslots with
  | nil => cases hp
  | @cons q slot fields slots hq _ ih =>
    rcases List.mem_cons.1 hp with rfl | hp
    · cases hq with
      | inline _ found => exact ⟨_, found⟩
      | reference outside =>
        obtain ⟨e', he', ⟨hout, -⟩ | ⟨-, k, hk, -⟩⟩ := outside
        · rw [he] at he'
          cases he'
          rw [hinline] at hout
          cases hout
        · exact ⟨k, hk⟩
    · exact ih hp

theorem exists_find?_of_inside (hm : m.Sound tt) (h : Inside tt t s) (hl : m.find? t = some l) :
    ∃ k, m.find? s = some k := by
  induction h with
  | refl => exact ⟨l, hl⟩
  | tail _ hstep ih =>
    obtain ⟨k, hk⟩ := ih
    exact exists_find?_of_holds hm hstep hk

end Layouts

/-! ## What a computation remembers -/

/-- What is remembered afterwards was remembered before, or is the layout of a type that `P` allows. -/
def LayoutMemo.Adds (P : TypeRef → Prop) (m m' : LayoutMemo) : Prop :=
  ∀ s l, m'.find? s = some l → m.find? s = some l ∨ P s

namespace Layouts

open LayoutMemo

variable {α β : Type} {tt : TypeTable} {m m' m₁ : LayoutMemo} {s t : TypeRef} {d : Descriptor} {l : Layout}
  {depth depth' : Nat} {P : TypeRef → Prop} {layoutOf : TypeRef → Action LayoutMemo Layout}

instance : Std.Refl (Adds P) := ⟨fun _ _ _ h => .inl h⟩

instance : Trans (Adds P) (Adds P) (Adds P) :=
  ⟨fun h h' s l hl => (h' s l hl).elim (h s l) .inr⟩

/-- After a layout was published it is remembered, and the others are as before. -/
theorem runOn_publish (t : TypeRef) (l : Layout) (m : LayoutMemo) :
    ∃ k m', (publish t l).runOn m = (.ok k, m') ∧ m'.find? t = some k ∧
      ∀ s, s ≠ t → m'.find? s = m.find? s := by
  cases hfind : m.find? t with
  | some first =>
    refine ⟨first, m, ?_, hfind, fun _ _ => rfl⟩
    rw [publish, Action.runOn_bind_ok (Action.runOn_get m), hfind]
    rfl
  | none =>
    refine ⟨l, ⟨(t, l) :: m.entries⟩, ?_, ?_, fun s hs => ?_⟩
    · rw [publish, Action.runOn_bind_ok (Action.runOn_get m), hfind]
      rfl
    · rw [find?_cons, if_pos rfl]
    · rw [find?_cons, if_neg hs]

theorem publish_adds (ht : P t) (l : Layout) (m : LayoutMemo) :
    Meets (Adds P) (publish t l) m fun _ _ => True := by
  obtain ⟨k, m', hrun, -, hrest⟩ := runOn_publish t l m
  refine .of_runOn hrun (fun s k hk => ?_) fun _ _ => trivial
  by_cases hs : s = t
  · exact .inr (hs ▸ ht)
  · rw [hrest s hs] at hk
    exact .inl hk

theorem slot_adds {name : Symbol}
    (h : ∀ e, tt.descriptor t = .ok e → e.mayBeInline = true → ∀ m,
      Meets (Adds P) (layoutOf t) m fun _ _ => True) (m : LayoutMemo) :
    Meets (Adds P) (slot tt layoutOf name t) m fun _ _ => True := by
  unfold slot
  refine Meets.lift_bind fun e he => Meets.ite (fun hinline => ?_) fun _ => Meets.pure trivial
  refine Meets.bind (h e he hinline m) fun l m' _ _ => ?_
  exact Meets.ite (fun _ => Meets.pure trivial) fun _ => Meets.pure trivial

theorem compute_adds (hd : tt.descriptor t = .ok d)
    (h : ∀ s, Holds tt t s → ∀ m, Meets (Adds P) (layoutOf s) m fun _ _ => True) (m : LayoutMemo) :
    Meets (Adds P) (compute tt layoutOf d) m fun _ _ => True := by
  have hproduct {fields : List (Symbol × TypeRef)} (hfields : FieldsOf d fields) :
      Meets (Adds P) (product tt layoutOf d.isMutable fields) m fun _ _ => True := by
    refine Meets.bind (Meets.foldlM fields fun draft p hp m => ?_) fun _ _ _ _ => Meets.lift fun _ _ => trivial
    refine Meets.bind (slot_adds (fun e he hinline => ?_) m) fun _ _ _ _ => Meets.lift fun _ _ => trivial
    exact h p.2 ⟨d, fields, e, hd, hfields, List.mem_map_of_mem hp, he, hinline⟩
  unfold compute
  cases hkind : d.kind with
  | abstract => exact Meets.lift_bind fun _ _ => Meets.throw _
  | union => exact Meets.lift_bind fun _ _ => Meets.throw _
  | array => exact Meets.lift fun _ _ => trivial
  | struct => exact Meets.lift_bind fun fields hfields => hproduct (.inl ⟨hkind, hfields⟩)
  | tuple => exact Meets.lift_bind fun fields hfields => hproduct (.inr ⟨hkind, hfields⟩)
  | _ => exact Meets.pure trivial

/-- Only layouts of types inside a type are remembered when its layout is computed. -/
theorem within_adds (hP : ∀ s, Inside tt t s → P s) (m : LayoutMemo) :
    Meets (Adds P) (within tt depth t) m fun _ _ => True := by
  induction depth generalizing t m with
  | zero =>
    unfold within memoized
    refine Meets.lift_bind fun d _ => Meets.get_bind ?_
    cases m.find? t with
    | some l => exact Meets.pure trivial
    | none => exact Meets.throw_bind _
  | succ depth ih =>
    unfold within memoized
    refine Meets.lift_bind fun d hd => Meets.get_bind ?_
    cases m.find? t with
    | some l => exact Meets.pure trivial
    | none =>
      refine Meets.bind (compute_adds hd (fun s hs m => ih (fun u hu => hP u (hu.head hs)) m) m) ?_
      exact fun l m' _ _ => publish_adds (hP t .refl) l m'

/-! ## One layout -/

theorem runOn_memoized_none {fresh : Descriptor → Action LayoutMemo Layout}
    (hd : tt.descriptor t = .ok d) (hnone : m.find? t = none) :
    (memoized tt t fresh).runOn m = (fresh d >>= publish t).runOn m := by
  unfold memoized
  rw [hd, Action.runOn_bind_ok (Action.runOn_lift _ m), Action.runOn_bind_ok (Action.runOn_get m), hnone]

theorem runOn_memoized_error {fresh : Descriptor → Action LayoutMemo Layout} {e : Error}
    (hd : tt.descriptor t = .error e) : (memoized tt t fresh).runOn m = (.error e, m) := by
  unfold memoized
  rw [hd, Action.runOn_bind_error (Action.runOn_lift _ m)]

theorem runOn_within_some (hd : tt.descriptor t = .ok d) (hl : m.find? t = some l) :
    (within tt depth t).runOn m = (.ok l, m) := by
  cases depth <;> exact runOn_memoized_some hd hl

theorem runOn_within_error {e : Error} (hd : tt.descriptor t = .error e) :
    (within tt depth t).runOn m = (.error e, m) := by
  cases depth <;> exact runOn_memoized_error hd

/-- An answer is remembered, and is the layout that the type has without a memo. -/
theorem within_answer (ht : tt.Sound) (ho : tt.Ordered) (hm : m.Sound tt)
    (hrun : (within tt depth t).runOn m = (.ok l, m₁)) :
    m₁.Sound tt ∧ m₁.find? t = some l ∧ reference tt t = .ok l := by
  have hmeets : Meets (Grows tt) (within tt depth t) m fun l m' => m'.find? t = some l :=
    within_meets depth t m
  have hkept := hmeets.kept
  have hanswer := hmeets.answer l
  rw [hrun] at hkept hanswer
  have hm₁ := hkept.sound ht hm
  have hl := hanswer rfl
  exact ⟨hm₁, hl, hm₁.reference_eq_ok ho hl⟩

/-! ## Outcomes -/

/-- The error that the bound on nesting was hit at a type with this name. -/
def limitError (name : Symbol) : Error := .invalidArgument (name.text ++ " contains itself inline")

/-- An outcome is the expected one, or the error that the bound was hit, which takes a deep type. -/
inductive Bounded (deep : Prop) (r : Except Error α) : Except Error α → Prop
  | same : Bounded deep r r
  | limit (name : Symbol) (hit : deep) : Bounded deep r (.error (limitError name))

variable {deep deep' : Prop}

theorem Bounded.mono {r r' : Except Error α} (h : Bounded deep r r') (hdeep : deep → deep') :
    Bounded deep' r r' := by
  cases h with
  | same => exact .same
  | limit name hit => exact .limit name (hdeep hit)

theorem Bounded.eq_of_not {r r' : Except Error α} (h : Bounded deep r r') (hdeep : ¬deep) : r' = r := by
  cases h with
  | same => rfl
  | limit name hit => exact absurd hit hdeep

/-- An answer is the expected one. -/
theorem Bounded.eq_of_ok {r : Except Error α} {a : α} (h : Bounded deep r (.ok a)) : r = .ok a := by
  cases h with
  | same => rfl

theorem Bounded.map {r r' : Except Error α} (h : Bounded deep r r') (f : α → β) :
    Bounded deep (r.map f) (r'.map f) := by
  cases h with
  | same => exact .same
  | limit name hit => exact .limit name hit

theorem Bounded.bind {r r' : Except Error α} (h : Bounded deep r r') (f : α → Except Error β) :
    Bounded deep (r >>= f) (r' >>= f) := by
  cases h with
  | same => exact .same
  | limit name hit => exact .limit name hit

theorem bounded_bind {r : Except Error α} {x : Action LayoutMemo α} {f : α → Except Error β}
    {g : α → Action LayoutMemo β} (hx : Bounded deep r (x.runOn m).1)
    (hf : ∀ a, x.runOn m = (.ok a, (x.runOn m).2) → Bounded deep (f a) ((g a).runOn (x.runOn m).2).1) :
    Bounded deep (r >>= f) ((x >>= g).runOn m).1 := by
  rcases hrun : x.runOn m with ⟨e | a, m₁⟩
  · rw [hrun] at hx
    rw [Action.runOn_bind_error hrun]
    cases hx with
    | same => exact .same
    | limit name hit => exact .limit name hit
  · rw [hrun] at hx hf
    rw [Action.runOn_bind_ok hrun]
    cases hx with
    | same => exact hf a rfl

theorem bounded_lift_bind {r : Except Error α} {f : α → Except Error β} {g : α → Action LayoutMemo β}
    (hf : ∀ a, r = .ok a → Bounded deep (f a) ((g a).runOn m).1) :
    Bounded deep (r >>= f) (((liftM r : Action LayoutMemo α) >>= g).runOn m).1 := by
  cases r with
  | error e => exact .same
  | ok a =>
    rw [Action.runOn_bind_ok (Action.runOn_lift _ m)]
    exact hf a rfl

theorem slot_bounded {name : Symbol}
    (h : ∀ e, tt.descriptor t = .ok e → e.mayBeInline = true →
      Bounded deep (reference tt t) ((layoutOf t).runOn m).1) :
    Bounded deep (plainSlot tt (reference tt) name t) ((slot tt layoutOf name t).runOn m).1 := by
  unfold plainSlot slot
  cases hd : tt.descriptor t with
  | error e => exact .same
  | ok d =>
    show Bounded deep (if d.mayBeInline = true then _ else _) _
    rw [Action.runOn_bind_ok (Action.runOn_lift _ m)]
    by_cases hinline : d.mayBeInline = true
    · rw [if_pos hinline, if_pos hinline]
      refine bounded_bind (h d hd hinline) fun l _ => ?_
      cases l.isBits <;> exact .same
    · rw [if_neg hinline, if_neg hinline]
      exact .same

/-- The fields of a product get their places as they do without a memo, one after the other. -/
theorem fold_bounded {fields : List (Symbol × TypeRef)} (ht : tt.Sound) (hremembers : Remembers tt layoutOf)
    (hm : m.Sound tt) (draft : Draft)
    (h : ∀ p ∈ fields, ∀ e, tt.descriptor p.2 = .ok e → e.mayBeInline = true → ∀ m, m.Sound tt →
      Bounded deep (reference tt p.2) ((layoutOf p.2).runOn m).1) :
    Bounded deep (fields.foldlM (plainExtend tt (reference tt)) draft)
      ((fields.foldlM (extend tt layoutOf) draft).runOn m).1 := by
  induction fields generalizing m draft with
  | nil => exact .same
  | cons p fields ih =>
    rw [List.forall_mem_cons] at h
    rw [List.foldlM_cons, List.foldlM_cons, plainExtend, extend, bind_assoc, bind_assoc]
    refine bounded_bind (slot_bounded fun e he hinline => h.1 e he hinline m hm) fun s _ => ?_
    have hm₁ := (slot_meets hremembers p.1 p.2 m).kept.sound ht hm
    exact bounded_lift_bind fun draft₁ _ => ih hm₁ draft₁ h.2

theorem compute_bounded (ht : tt.Sound) (hremembers : Remembers tt layoutOf) (hm : m.Sound tt)
    (hd : tt.descriptor t = .ok d)
    (h : ∀ s, Holds tt t s → ∀ m, m.Sound tt → Bounded deep (reference tt s) ((layoutOf s).runOn m).1) :
    Bounded deep (plain tt (reference tt) d) ((compute tt layoutOf d).runOn m).1 := by
  have hproduct {fields : List (Symbol × TypeRef)} (hfields : FieldsOf d fields) :
      Bounded deep (plainProduct tt (reference tt) d.isMutable fields)
        ((product tt layoutOf d.isMutable fields).runOn m).1 := by
    refine bounded_bind (fold_bounded ht hremembers hm _ fun p hp e he hinline => ?_) fun _ _ => .same
    exact h p.2 ⟨d, fields, e, hd, hfields, List.mem_map_of_mem hp, he, hinline⟩
  unfold plain compute
  cases hkind : d.kind with
  | abstract | union => cases tt.render d.ref <;> exact .same
  | struct =>
    cases hfields : structFields d with
    | error e => exact .same
    | ok fields => exact hproduct (.inl ⟨hkind, hfields⟩)
  | tuple =>
    cases hfields : tupleFieldsFrom 0 d.params with
    | error e => exact .same
    | ok fields => exact hproduct (.inr ⟨hkind, hfields⟩)
  | _ => exact .same

/-- Only layouts that have to be computed are in question. -/
theorem bounded_of_fresh (ho : tt.Ordered) (hm : m.Sound tt)
    (h : ∀ d, tt.descriptor t = .ok d → m.find? t = none →
      Bounded deep (reference tt t) ((within tt depth t).runOn m).1) :
    Bounded deep (reference tt t) ((within tt depth t).runOn m).1 := by
  cases hd : tt.descriptor t with
  | error e =>
    rw [reference_eq ho, hd]
    rw [runOn_within_error hd]
    exact .same
  | ok d =>
    cases hl : m.find? t with
    | some l =>
      rw [runOn_within_some hd hl, hm.reference_eq_ok ho hl]
      exact .same
    | none => exact h d hd hl

/-- A layout is the one that the type has without a memo, unless the bound is hit by a type that nests
too deep. -/
theorem within_bounded (ht : tt.Sound) (ho : tt.Ordered) (hm : m.Sound tt) (depth : Nat) (t : TypeRef) :
    Bounded (¬NestsWithin tt depth t) (reference tt t) ((within tt depth t).runOn m).1 := by
  induction depth generalizing t m with
  | zero =>
    refine bounded_of_fresh ho hm fun d hd hnone => ?_
    rw [within, runOn_memoized_none hd hnone]
    exact .limit d.name id
  | succ depth ih =>
    refine bounded_of_fresh ho hm fun d hd hnone => ?_
    have hcompute : Bounded (¬NestsWithin tt (depth + 1) t) (plain tt (reference tt) d)
        ((compute tt (within tt depth) d).runOn m).1 := by
      refine compute_bounded ht (within_meets depth) hm hd fun s hs m hm => (ih hm s).mono ?_
      exact fun hdeep hnests => hdeep (hnests s hs)
    have hrun : (within tt (depth + 1) t).runOn m =
        (compute tt (within tt depth) d >>= publish t).runOn m :=
      runOn_memoized_none hd hnone
    rcases hinner : (compute tt (within tt depth) d).runOn m with ⟨e | k, m₁⟩
    · rw [hinner] at hcompute
      rw [hrun, Action.runOn_bind_error hinner, reference_eq ho, hd]
      exact hcompute
    · obtain ⟨l, m₂, hpublish, -⟩ := runOn_publish t k m₁
      rw [Action.runOn_bind_ok hinner, hpublish] at hrun
      rw [hrun, (within_answer ht ho hm hrun).2.2]
      exact .same

/-! ## Answers from a fuller memo -/

/-- What the first computation answers from a memo, the second one answers from a memo that holds more,
and what they remember is in the same relation. An error is the same too, unless the bound was hit. -/
structure Follows (tt : TypeTable) (x x' : Action LayoutMemo α) : Prop where
  answer : ∀ {m m' m₁ : LayoutMemo} {a : α}, m.Sound tt → m'.Sound tt → m.Extends m' →
    x.runOn m = (.ok a, m₁) →
      ∃ m₁', x'.runOn m' = (.ok a, m₁') ∧ m₁.Sound tt ∧ m₁'.Sound tt ∧ m₁.Extends m₁'
  failure : ∀ {m m' m₁ : LayoutMemo} {e : Error}, m.Sound tt → m'.Sound tt → m.Extends m' →
    x.runOn m = (.error e, m₁) → (∃ name, e = limitError name) ∨ ∃ m₁', x'.runOn m' = (.error e, m₁')

theorem follows_pure (a : α) : Follows tt (pure a) (pure a) := by
  refine ⟨fun {m m' m₁ b} hm hm' hext hrun => ?_, fun _ _ _ hrun => nomatch hrun⟩
  cases hrun
  exact ⟨m', rfl, hm, hm', hext⟩

theorem follows_lift (r : Except Error α) : Follows tt (liftM r) (liftM r) := by
  refine ⟨fun {m m' m₁ b} hm hm' hext hrun => ?_, fun {m m' m₁ e} hm hm' hext hrun => ?_⟩
  · cases hrun
    exact ⟨m', rfl, hm, hm', hext⟩
  · cases hrun
    exact .inr ⟨m', rfl⟩

theorem follows_bind {x x' : Action LayoutMemo α} {f f' : α → Action LayoutMemo β} (hx : Follows tt x x')
    (hf : ∀ a, Follows tt (f a) (f' a)) : Follows tt (x >>= f) (x' >>= f') := by
  refine ⟨fun {m m' m₂ b} hm hm' hext hrun => ?_, fun {m m' m₂ e} hm hm' hext hrun => ?_⟩
  · rcases hxrun : x.runOn m with ⟨e | a, m₁⟩
    · rw [Action.runOn_bind_error hxrun] at hrun
      cases hrun
    · rw [Action.runOn_bind_ok hxrun] at hrun
      obtain ⟨m₁', hxrun', hm₁, hm₁', hext₁⟩ := hx.answer hm hm' hext hxrun
      rw [Action.runOn_bind_ok hxrun']
      exact (hf a).answer hm₁ hm₁' hext₁ hrun
  · rcases hxrun : x.runOn m with ⟨e' | a, m₁⟩
    · rw [Action.runOn_bind_error hxrun] at hrun
      cases hrun
      refine (hx.failure hm hm' hext hxrun).imp_right ?_
      rintro ⟨m₁', hxrun'⟩
      exact ⟨m₁', Action.runOn_bind_error hxrun'⟩
    · rw [Action.runOn_bind_ok hxrun] at hrun
      obtain ⟨m₁', hxrun', hm₁, hm₁', hext₁⟩ := hx.answer hm hm' hext hxrun
      rw [Action.runOn_bind_ok hxrun']
      exact (hf a).failure hm₁ hm₁' hext₁ hrun

theorem follows_lift_bind {r : Except Error α} {f f' : α → Action LayoutMemo β}
    (hf : ∀ a, Follows tt (f a) (f' a)) :
    Follows tt ((liftM r : Action LayoutMemo α) >>= f) ((liftM r : Action LayoutMemo α) >>= f') :=
  follows_bind (follows_lift r) hf

theorem follows_foldlM {γ : Type} {f f' : β → γ → Action LayoutMemo β} (cs : List γ)
    (hf : ∀ b c, Follows tt (f b c) (f' b c)) (b : β) : Follows tt (cs.foldlM f b) (cs.foldlM f' b) := by
  induction cs generalizing b with
  | nil => exact follows_pure b
  | cons c cs ih =>
    rw [List.foldlM_cons, List.foldlM_cons]
    exact follows_bind (hf b c) ih

theorem slot_follows {layoutOf' : TypeRef → Action LayoutMemo Layout}
    (h : ∀ s, Follows tt (layoutOf s) (layoutOf' s)) (name : Symbol) (t : TypeRef) :
    Follows tt (slot tt layoutOf name t) (slot tt layoutOf' name t) := by
  unfold slot
  refine follows_lift_bind fun d => ?_
  split
  · refine follows_bind (h t) fun l => ?_
    split
    · exact follows_pure _
    · exact follows_pure _
  · exact follows_pure _

theorem extend_follows {layoutOf' : TypeRef → Action LayoutMemo Layout}
    (h : ∀ s, Follows tt (layoutOf s) (layoutOf' s)) (draft : Draft) (field : Symbol × TypeRef) :
    Follows tt (extend tt layoutOf draft field) (extend tt layoutOf' draft field) :=
  follows_bind (slot_follows h field.1 field.2) fun s => follows_lift (draft.add s)

theorem compute_follows {layoutOf' : TypeRef → Action LayoutMemo Layout}
    (h : ∀ s, Follows tt (layoutOf s) (layoutOf' s)) (d : Descriptor) :
    Follows tt (compute tt layoutOf d) (compute tt layoutOf' d) := by
  have hproduct (fields : List (Symbol × TypeRef)) :
      Follows tt (product tt layoutOf d.isMutable fields) (product tt layoutOf' d.isMutable fields) :=
    follows_bind (follows_foldlM fields (extend_follows h) Draft.empty)
      fun draft => follows_lift (draft.finish d.isMutable)
  unfold compute
  cases d.kind with
  | abstract | union => exact follows_lift_bind fun name => follows_lift (.error _)
  | array => exact follows_lift _
  | struct | tuple => exact follows_lift_bind hproduct
  | _ => exact follows_pure _

/-- Whatever a layout makes a memo remember, a memo that has the layout remembers already. -/
theorem extends_of_find? (ht : tt.Sound) (ho : tt.Ordered) (hm : m.Sound tt) (hm' : m'.Sound tt) (hext : m.Extends m')
    (hrun : (within tt depth t).runOn m = (.ok l, m₁)) (hl : m'.find? t = some l) : m₁.Extends m' := by
  have hadds := (within_adds (P := Inside tt t) (fun _ hs => hs) m).kept (x := within tt depth t)
  rw [hrun] at hadds
  have hm₁ := (within_answer ht ho hm hrun).1
  intro s k hk
  rcases hadds s k hk with hk' | hinside
  · exact hext hk'
  · obtain ⟨k', hk'⟩ := exists_find?_of_inside hm' hinside hl
    have hsame := hm₁.reference_eq_ok ho hk
    rw [hm'.reference_eq_ok ho hk'] at hsame
    cases hsame
    exact hk'

theorem find?_eq_none (hext : m.Extends m') (hfind : m'.find? t = none) : m.find? t = none := by
  cases hl : m.find? t with
  | none => rfl
  | some l =>
    rw [hext hl] at hfind
    cases hfind

/-- The outcome of computing a layout that is not remembered. -/
theorem runOn_within_succ (hd : tt.descriptor t = .ok d) (hnone : m.find? t = none) :
    (within tt (depth + 1) t).runOn m = (compute tt (within tt depth) d >>= publish t).runOn m :=
  runOn_memoized_none hd hnone

theorem within_follows_zero (ht : tt.Sound) (ho : tt.Ordered) (t : TypeRef) :
    Follows tt (within tt 0 t) (within tt depth' t) := by
  refine ⟨fun {m m' m₁ l} hm hm' hext hrun => ?_, fun {m m' m₁ e} hm hm' hext hrun => ?_⟩
  · obtain ⟨hm₁, hl, -⟩ := within_answer ht ho hm hrun
    obtain ⟨d, hd, -⟩ := hm₁.describes hl
    cases hfind : m.find? t with
    | none =>
      rw [within, runOn_memoized_none hd hfind] at hrun
      cases hrun
    | some k =>
      rw [runOn_within_some hd hfind] at hrun
      cases hrun
      exact ⟨m', runOn_within_some hd (hext hfind), hm, hm', hext⟩
  · cases hd : tt.descriptor t with
    | error e' =>
      rw [runOn_within_error hd] at hrun
      cases hrun
      exact .inr ⟨m', runOn_within_error hd⟩
    | ok d =>
      cases hfind : m.find? t with
      | none =>
        rw [within, runOn_memoized_none hd hfind] at hrun
        cases hrun
        exact .inl ⟨d.name, rfl⟩
      | some k =>
        rw [runOn_within_some hd hfind] at hrun
        cases hrun

theorem within_follows_succ {n : Nat} (ht : tt.Sound) (ho : tt.Ordered)
    (h : ∀ s, Follows tt (within tt depth s) (within tt n s)) (t : TypeRef) :
    Follows tt (within tt (depth + 1) t) (within tt (n + 1) t) := by
  refine ⟨fun {m m' m₁ l} hm hm' hext hrun => ?_, fun {m m' m₁ e} hm hm' hext hrun => ?_⟩
  · obtain ⟨hm₁, hl, hreference⟩ := within_answer ht ho hm hrun
    obtain ⟨d, hd, -⟩ := hm₁.describes hl
    cases hfind' : m'.find? t with
    | some l' =>
      have hsame := hm'.reference_eq_ok ho hfind'
      rw [hreference] at hsame
      cases hsame
      exact ⟨m', runOn_within_some hd hfind', hm₁, hm', extends_of_find? ht ho hm hm' hext hrun hfind'⟩
    | none =>
      -- Both compute the layout, and both publish it.
      have hrun' := hrun
      rw [runOn_within_succ hd (find?_eq_none hext hfind')] at hrun'
      rcases hcompute : (compute tt (within tt depth) d).runOn m with ⟨e | k, m₂⟩
      · rw [Action.runOn_bind_error hcompute] at hrun'
        cases hrun'
      · rw [Action.runOn_bind_ok hcompute] at hrun'
        obtain ⟨m₂', hcompute', -, -, hext₂⟩ := (compute_follows h d).answer hm hm' hext hcompute
        obtain ⟨l₁, m₁', hpublish, hl₁, hrest⟩ := runOn_publish t k m₂'
        have hrun₁ : (within tt (n + 1) t).runOn m' = (.ok l₁, m₁') := by
          rw [runOn_within_succ hd hfind', Action.runOn_bind_ok hcompute', hpublish]
        obtain ⟨hm₁', -, hreference'⟩ := within_answer ht ho hm' hrun₁
        rw [hreference] at hreference'
        cases hreference'
        refine ⟨m₁', hrun₁, hm₁, hm₁', fun {s i} hi => ?_⟩
        by_cases hs : s = t
        · rw [hs, hl] at hi
          rw [hs, hl₁, hi]
        · obtain ⟨l₂, m₃, hpublish₂, -, hrest₂⟩ := runOn_publish t k m₂
          rw [hpublish₂] at hrun'
          cases hrun'
          rw [hrest₂ s hs] at hi
          rw [hrest s hs]
          exact hext₂ hi
  · cases hd : tt.descriptor t with
    | error e' =>
      rw [runOn_within_error hd] at hrun
      cases hrun
      exact .inr ⟨m', runOn_within_error hd⟩
    | ok d =>
      cases hfind' : m'.find? t with
      | some l' =>
        -- The layout exists, so only the bound can have been in the way.
        have hbounded := within_bounded ht ho hm (depth + 1) t
        rw [hrun, hm'.reference_eq_ok ho hfind'] at hbounded
        cases hbounded with
        | limit name _ => exact .inl ⟨name, rfl⟩
      | none =>
        rw [runOn_within_succ hd (find?_eq_none hext hfind')] at hrun
        rcases hcompute : (compute tt (within tt depth) d).runOn m with ⟨e' | k, m₂⟩
        · rw [Action.runOn_bind_error hcompute] at hrun
          cases hrun
          refine ((compute_follows h d).failure hm hm' hext hcompute).imp_right ?_
          rintro ⟨m₁', hcompute'⟩
          exact ⟨m₁', by rw [runOn_within_succ hd hfind', Action.runOn_bind_error hcompute']⟩
        · obtain ⟨l₁, m₁', hpublish, -⟩ := runOn_publish t k m₂
          rw [Action.runOn_bind_ok hcompute, hpublish] at hrun
          cases hrun

/-- A layout that is within reach from a memo is within reach from a memo that holds more. -/
theorem within_follows (ht : tt.Sound) (ho : tt.Ordered) (hle : depth ≤ depth') (t : TypeRef) :
    Follows tt (within tt depth t) (within tt depth' t) := by
  induction depth generalizing depth' t with
  | zero => exact within_follows_zero ht ho t
  | succ depth ih =>
    obtain ⟨n, rfl⟩ : ∃ n, depth' = n + 1 := ⟨depth' - 1, by omega⟩
    exact within_follows_succ ht ho (fun s => ih (Nat.le_of_succ_le_succ hle) s) t

/-! ## Layouts of types -/

/-- The layout of a type is the one without a memo, unless the type nests too deep. -/
theorem of_bounded (ht : tt.Sound) (ho : tt.Ordered) (hm : m.Sound tt) (t : TypeRef) :
    Bounded (¬NestsWithin tt (maxDepth + 1) t) (reference tt t) ((of tt t).runOn m).1 :=
  within_bounded ht ho hm (maxDepth + 1) t

/-- A fuller memo changes an outcome only where the bound was hit. -/
theorem of_independent (ht : tt.Sound) (ho : tt.Ordered) (hm : m.Sound tt) (hm' : m'.Sound tt)
    (hext : m.Extends m') (t : TypeRef) :
    Bounded (¬NestsWithin tt (maxDepth + 1) t) ((of tt t).runOn m').1 ((of tt t).runOn m).1 := by
  by_cases hnests : NestsWithin tt (maxDepth + 1) t
  · rw [(of_bounded ht ho hm t).eq_of_not (not_not_intro hnests),
      (of_bounded ht ho hm' t).eq_of_not (not_not_intro hnests)]
    exact .same
  · have hfollows := within_follows ht ho (Nat.le_refl (maxDepth + 1)) t
    rcases hrun : (of tt t).runOn m with ⟨e | l, m₁⟩
    · rcases hfollows.failure hm hm' hext hrun with ⟨name, rfl⟩ | ⟨m₁', hrun'⟩
      · exact .limit name hnests
      · have heq : ((of tt t).runOn m').1 = .error e := congrArg Prod.fst hrun'
        rw [heq]
        exact .same
    · obtain ⟨m₁', hrun', -⟩ := hfollows.answer hm hm' hext hrun
      have heq : ((of tt t).runOn m').1 = .ok l := congrArg Prod.fst hrun'
      rw [heq]
      exact .same

end Layouts

end TypedHeap
