import TypedHeap.Proofs.Heap.Generations
import TypedHeap.Proofs.Heap.Questions

/-!
# Modules never nest in a circle

Only a store in a field gives a module another parent, and the check in front of it follows all the
modules that the new parent lies in. A new module has no modules inside it.

* `Step.acyclic`, `Trail.acyclic`: no step closes a circle, so no run does.
* `checkAbove_ends`, `namesAbove_ends`: without circles, the two walks up the modules reach a root, or a
  value that is no module, before they have taken more steps than there are objects.
-/

namespace TypedHeap.Heap

open TypedHeap.Action (Meets Fails runOn_bind_ok runOn_bind_error runOn_look runOn_pure runOn_throw)

variable {h h' : Heap} {m p v x target cur : Value} {k n : Nat} {S : Value → Nat → Prop}

/-! ## Circles -/

theorem acyclic_fresh (config : HeapConfig) (barrier : Barrier) : (fresh config barrier).Acyclic := by
  intro m hcycle
  obtain ⟨p, hin, -⟩ := Relation.TransGen.head'_iff.1 hcycle
  obtain ⟨n, hn⟩ := hin.live
  cases hn

/-- A module refers to its parent and to nothing else. -/
theorem parent_iff_refers (hs : h.Sound) (ht : h.typeOf m = .ok Builtin.moduleType) :
    h.Parent m p ↔ h.Refers m p := by
  rw [parent_iff hs]
  obtain ⟨l, hl⟩ := hs.exists_layout ht (hs.builtin rfl) rfl
  have hfields := hs.module_fields hl
  have hmem : parentLayout ∈ l.fields := by
    rw [hfields]
    exact List.mem_cons_of_mem _ List.mem_cons_self
  constructor
  · exact fun ⟨_, hslot⟩ => ⟨_, .field ht hl hmem rfl, hslot⟩
  · rintro ⟨k, hslot, hx⟩
    obtain ⟨e, he, hout, rfl⟩ := hslot.field_of hs ht hl (.inr ⟨_, hmem⟩)
    rw [hfields] at he
    rcases List.mem_pair.1 he with rfl | rfl
    · cases hout
    · exact ⟨ht, hx⟩

/-- A new module has no parent. -/
theorem Step.live_of_parent (step : Step S h h') (hs : h.Sound) (hp : h'.Parent m p) : h.Live m := by
  obtain ⟨ht, hslot⟩ := (parent_iff (step.sound hs)).1 hp
  obtain ⟨n, hn⟩ := live_of_typeOf ht
  rcases step.effect hs with hl | ⟨v, t, size, hadded⟩ | hw
  · rw [hl.size?_eq] at hn
    exact ⟨n, hn⟩
  · rw [hadded.size?] at hn
    split at hn
    · rename_i hmv
      subst hmv
      have hnone : h'.slot m parentLayout.offset = none :=
        slot_eq_none_of_zero (word_eq_zero fun j hj _ => hadded.zero j hj)
      rw [hnone] at hslot
      cases hslot
    · exact ⟨n, hn⟩
  · exact hw.live_iff.1 ⟨n, hn⟩

/-- A module lies where it did before, or where the step has put it. -/
theorem Step.inside (step : Step S h h') (hs : h.Sound) (hin : h'.Inside m p) :
    h.Inside m p ∨ h.typeOf m = .ok Builtin.moduleType ∧ Stored S h h' m p := by
  have hs' := step.sound hs
  have hlive := step.live_of_parent hs hin.1
  have ht := hs.typeOf_of_live (step.keeps hs).toExtends hlive hin.1.1
  have hnot (q : Value) (_ : h.Young q)
      (hq : h.typeOf q = .ok Builtin.buffer ∨ ∃ elem rank, h.ArrayType q elem rank) : m ≠ q := by
    rintro rfl
    rcases hq with hbuffer | ⟨elem, rank, htype⟩
    · cases ht.symm.trans hbuffer
    · exact Sound.ne_of_kind htype ht (hs.builtin rfl) nofun rfl
  rcases step.refers hs hlive hnot ((parent_iff_refers hs' hin.1.1).1 hin.1) with hbefore | hstored
  · exact .inl ⟨(parent_iff_refers hs ht).2 hbefore, hin.2⟩
  · exact .inr ⟨ht, hstored⟩

theorem Step.acyclic (step : Step S h h') (hs : h.Sound) (ha : h.Acyclic) : h'.Acyclic := by
  have hs' := step.sound hs
  by_cases hnew : ∃ v x, h'.Inside v x ∧ h.typeOf v = .ok Builtin.moduleType ∧ Stored S h h' v x
  · obtain ⟨v, x, hin, ht, hstored⟩ := hnew
    obtain ⟨houter, honly⟩ := hstored.outer ht
    refine acyclic_of_added (fun a b hab => ?_) ha (houter hin.2)
    rcases step.inside hs hab with hbefore | ⟨hta, -⟩
    · exact .inl hbefore
    · exact (honly a b ((parent_iff_refers hs' hab.1.1).1 hab.1)).imp_left
        fun href => ⟨(parent_iff_refers hs hta).2 href, hab.2⟩
  · refine fun m hcycle => ha m (Relation.TransGen.mono (fun a b hab => ?_) _ _ hcycle)
    exact (step.inside hs hab).resolve_right fun hstored => hnew ⟨a, b, hab, hstored⟩

theorem Move.acyclic (move : Move S h h') (hs : h.Sound) (ha : h.Acyclic) : h'.Acyclic := by
  cases move with
  | step step => exact step.acyclic hs ha
  | flags hr =>
    have hs' : h'.Sound := hs.rewrites_flags hr
    refine fun m hcycle => ha m (Relation.TransGen.mono (fun a b hab => ?_) _ _ hcycle)
    have ht := hr.typeOf_iff.1 hab.1.1
    have href := hr.refers_of_nothing hs ((parent_iff_refers hs' hab.1.1).1 hab.1)
    exact ⟨(parent_iff_refers hs ht).2 href, hab.2⟩

theorem Trail.acyclic (trail : Trail S h h') (hs : h.Sound) (ha : h.Acyclic) : h'.Acyclic :=
  trail.preserves hs Move.acyclic ha

/-! ## Walks up the modules -/

open TypedHeap.ModuleObject
open Error (IsAboutValue)

/-- An error about a value is not about a chain. -/
theorem ne_endlessChain {e : Error} (he : IsAboutValue e) : e ≠ endlessChain := by
  rintro rfl
  exact he

theorem parent_fails (hs : h.Sound) (m : Value) : Fails (parent m) h IsAboutValue := by
  unfold parent
  refine Fails.look_bind (hs.expectType_raises m _) fun _ hexpect => ?_
  have ht := expectType_eq_ok.1 hexpect
  obtain ⟨l, hl⟩ := hs.exists_layout ht (hs.builtin rfl) rfl
  have hfield : l.field parentField = .ok parentLayout := by
    rw [Layout.field, hs.module_fields hl]
    rfl
  refine Fails.bind_ran (.of_runOn (Record.runOn_read hs ht hl parentField) ?_) fun d h' _ => ?_
  · rw [hfield]
    refine (?_ : Raises (Record.datumAt h m parentLayout) _)
    rw [Record.datumAt_outside hs ht hl (Record.mem_of_field hfield) rfl]
    split
    · exact .ok
    · exact .error trivial
  · split
    · exact .pure
    · exact .throw trivial

/-- The name of a module is read from its bytes. -/
theorem runOn_readName (hs : h.Sound) (ht : h.typeOf m = .ok Builtin.moduleType) :
    (Record.readScalar .symbol m nameField).runOn h = (ScalarKind.decode h.symbols .symbol
      (h.memory.window (m.offset + nameLayout.offset) nameLayout.size), h) := by
  obtain ⟨l, hl⟩ := hs.exists_layout ht (hs.builtin rfl) rfl
  have hfield : l.field nameField = .ok nameLayout := by
    rw [Layout.field, hs.module_fields hl]
    rfl
  have hdatum := Record.datumAt_inline hs ht hl (Record.mem_of_field hfield) rfl
  rw [Record.runOn_readScalar hs ht hl .symbol nameField, hfield]
  show (Record.datumAt h m nameLayout >>= Datum.read .symbol h, h) = _
  rw [hdatum]
  rfl

theorem name_fails (hs : h.Sound) (m : Value) : Fails (name m) h IsAboutValue := by
  unfold name
  refine Fails.look_bind (hs.expectType_raises m _) fun _ hexpect => ?_
  exact .of_runOn (runOn_readName hs (expectType_eq_ok.1 hexpect)) (decode_raises h.symbols .symbol _)

/-- Complaints about a descendant are longer than the one about a chain that does not end. -/
theorem nested_ne_endlessChain (inner outer : String) : Error.invalidArgument
    ("module " ++ inner ++ " cannot be nested inside its own descendant " ++ outer) ≠ endlessChain := by
  intro heq
  have hlength := congrArg String.length (Error.invalidArgument.inj heq)
  simp only [String.length_append] at hlength
  have hnested : " cannot be nested inside its own descendant ".length = 44 := by decide
  have hendless : "module parents do not end".length = 25 := by decide
  omega

/-- How many steps from one module to another one lead upwards from `cur`. -/
def HeightBelow (h : Heap) (cur : Value) (k : Nat) : Prop :=
  ∀ vs, List.IsChain h.Inside (cur :: vs) → vs.length < k

theorem HeightBelow.step (hk : h.HeightBelow cur (k + 1)) (hin : h.Inside cur p) : h.HeightBelow p k :=
  fun vs hchain => Nat.lt_of_succ_lt_succ (hk (p :: vs) (List.isChain_cons_cons.2 ⟨hin, hchain⟩))

theorem Acyclic.heightBelow (ha : h.Acyclic) (v : Value) : h.HeightBelow v (h.objects.length + 1) :=
  fun _ hchain => Nat.lt_succ_of_le (ha.length_le hchain)

/-- From a value on the way up the walk fails, stops at a root, or goes on. -/
theorem parent_cases (hs : h.Sound) (cur : Value) :
    (∃ e, (parent cur).runOn h = (.error e, h) ∧ IsAboutValue e) ∨
      (parent cur).runOn h = (.ok cur, h) ∨ ∃ p, (parent cur).runOn h = (.ok p, h) ∧ h.Inside cur p := by
  have hasks := parent_asks hs cur
  have hfails := parent_fails hs cur
  rcases hrun : (parent cur).runOn h with ⟨e | p, h'⟩
  · have hkept := hasks.kept
    rw [hrun] at hkept
    exact .inl ⟨e, by rw [hkept], hfails e (by rw [hrun])⟩
  · have hkept := hasks.kept
    have hp := hasks.answer p
    rw [hrun] at hkept hp
    refine .inr ?_
    rw [← show h = h' from hkept]
    by_cases hroot : p = cur
    · exact .inl (by rw [hroot])
    · exact .inr ⟨p, rfl, hp rfl, hroot⟩

/-- The check ends at a root, or with a failure of its own. More steps make no difference. By induction on
the steps that lead upwards. -/
theorem checkAbove_ends (hs : h.Sound) (m target : Value) (hk : h.HeightBelow cur k) (hn : k ≤ n) :
    (checkAbove m target n cur).runOn h = (checkAbove m target k cur).runOn h ∧
      Fails (checkAbove m target k cur) h (· ≠ endlessChain) := by
  induction k generalizing n cur with
  | zero => exact absurd (hk [] (.singleton cur)) (Nat.lt_irrefl 0)
  | succ k ih =>
    obtain ⟨j, rfl⟩ := Nat.exists_eq_add_of_le' hn
    rw [← Nat.add_assoc]
    unfold checkAbove
    by_cases hcur : cur = m
    · rw [if_pos hcur, if_pos hcur]
      have hname {h : Heap} (hs : h.Sound) (m : Value) : Fails (name m) h (· ≠ endlessChain) :=
        (name_fails hs m).mono fun _ => ne_endlessChain
      refine ⟨rfl, Fails.bind (hname hs m) (name_asks hs m) fun _ _ heq _ => ?_⟩
      subst heq
      refine Fails.bind (hname hs target) (name_asks hs target) fun _ _ _ _ => ?_
      exact .throw (nested_ne_endlessChain _ _)
    · rw [if_neg hcur, if_neg hcur, Fails]
      rcases parent_cases hs cur with ⟨e, hrun, he⟩ | hrun | ⟨p, hrun, hin⟩
      · rw [runOn_bind_error hrun, runOn_bind_error hrun]
        exact ⟨rfl, .error (ne_endlessChain he)⟩
      · rw [runOn_bind_ok hrun, runOn_bind_ok hrun, if_pos rfl, if_pos rfl]
        exact ⟨rfl, .ok⟩
      · rw [runOn_bind_ok hrun, runOn_bind_ok hrun, if_neg hin.2, if_neg hin.2]
        exact ih (hk.step hin) (Nat.le_add_left k j)

/-- The names above a module, likewise. -/
theorem namesAbove_ends (hs : h.Sound) (below : List Symbol) (hk : h.HeightBelow cur k) (hn : k ≤ n) :
    (namesAbove below n cur).runOn h = (namesAbove below k cur).runOn h ∧
      Fails (namesAbove below k cur) h (· ≠ endlessChain) := by
  induction k generalizing n cur below with
  | zero => exact absurd (hk [] (.singleton cur)) (Nat.lt_irrefl 0)
  | succ k ih =>
    obtain ⟨j, rfl⟩ := Nat.exists_eq_add_of_le' hn
    rw [← Nat.add_assoc]
    unfold namesAbove
    rw [Fails]
    rcases parent_cases hs cur with ⟨e, hrun, he⟩ | hrun | ⟨p, hrun, hin⟩
    · rw [runOn_bind_error hrun, runOn_bind_error hrun]
      exact ⟨rfl, .error (ne_endlessChain he)⟩
    · rw [runOn_bind_ok hrun, runOn_bind_ok hrun, if_pos rfl, if_pos rfl]
      exact ⟨rfl, .ok⟩
    · rw [runOn_bind_ok hrun, runOn_bind_ok hrun, if_neg hin.2, if_neg hin.2]
      have hkept := (name_asks hs p).kept
      have hfails := name_fails hs p
      rcases hname : (name p).runOn h with ⟨e | s, h'⟩
      · rw [runOn_bind_error hname, runOn_bind_error hname]
        exact ⟨rfl, .error (ne_endlessChain (hfails e (by rw [hname])))⟩
      · rw [hname] at hkept
        rw [runOn_bind_ok hname, runOn_bind_ok hname, ← show h = h' from hkept]
        exact ih (s :: below) (hk.step hin) (Nat.le_add_left k j)

theorem path_fails (hs : h.Sound) (ha : h.Acyclic) (m : Value) : Fails (path m) h (· ≠ endlessChain) := by
  unfold path
  refine Fails.bind ((name_fails hs m).mono fun _ => ne_endlessChain) (name_asks hs m) fun s _ heq _ => ?_
  subst heq
  refine Fails.get_bind (Fails.bind_ran ?_ fun _ _ _ => .pure)
  exact (namesAbove_ends hs [s] (ha.heightBelow m) (Nat.le_refl _)).2

theorem checkParent_fails (hs : h.Sound) (ha : h.Acyclic) (m : Value) (i : Nat) (p : Value) :
    Fails (checkParent m i p) h (· ≠ endlessChain) := by
  unfold checkParent
  refine Fails.ite (fun _ => Fails.look_bind ?_ fun _ _ => ?_) fun _ => .pure
  · refine (hs.typeOf_raises p).mono fun e he => ?_
    rw [he]
    nofun
  · refine Fails.ite (fun _ => Fails.get_bind ?_) fun _ => .pure
    exact (checkAbove_ends hs m p (ha.heightBelow p) (Nat.le_refl _)).2

end TypedHeap.Heap
