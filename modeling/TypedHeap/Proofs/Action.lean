import Mathlib.Data.List.Forall2
import TypedHeap.Action

/-!
# What a run of an action guarantees

An action keeps the state it has reached when it fails, so a guarantee about a run has two halves:
how the state changed, whatever the outcome, and what holds of the answer if there is one.

* `Action.Meets R x s Q`: a run of `x` from `s` changes the state as `R` allows, and `Q` holds of its
  answer and the state it leaves.
* `Action.Meets.bind`, `look_bind`, `guard`, `mapM`, …: one rule for each way of building an action.
  They ask of `R` only that it is reflexive and transitive.
* `Action.Meets.focus`: from a part of the state to the whole.
* `Action.Ends x s Q E`: the same with a guarantee for failures of its own.

The `runOn` equations at the front say what the building blocks of actions do, one by one, and
`bind_eq_ok`, `mapM_eq_ok`, … what a question that got an answer has found out on the way.
-/

namespace TypedHeap

/-! ## Questions -/

section Questions

variable {α β : Type} {e : Error}

theorem bind_eq_ok {x : Except Error α} {f : α → Except Error β} {b : β} :
    (x >>= f) = .ok b ↔ ∃ a, x = .ok a ∧ f a = .ok b := by
  cases x with
  | error e => exact ⟨nofun, nofun⟩
  | ok a =>
    constructor
    · exact fun h => ⟨a, rfl, h⟩
    · rintro ⟨_, h, hf⟩
      cases h
      exact hf

/-- A question with an answer in front of one with an answer. -/
theorem exists_bind {x : Except Error α} {f : α → Except Error β} {a : α} (hx : x = .ok a)
    (hf : ∃ b, f a = .ok b) : ∃ b, (x >>= f) = .ok b := by
  rw [hx]
  exact hf

theorem pure_eq_ok {a b : α} : (pure a : Except Error α) = .ok b ↔ a = b :=
  ⟨fun h => by cases h; rfl, fun h => congrArg Except.ok h⟩

/-- An answer of which something is known. -/
theorem exists_answer {x : Except Error α} {g : α → β} {b : β} (h : x.toOption.map g = some b) :
    ∃ a, x = .ok a ∧ g a = b := by
  cases x with
  | error e => cases h
  | ok a => exact ⟨a, rfl, Option.some.inj h⟩

theorem guard_eq_ok {c : Prop} [Decidable c] {f : β → Except Error α} {y : Except Error α} {a : α} :
    (if c then throw e >>= f else y) = .ok a ↔ ¬c ∧ y = .ok a := by
  by_cases hc : c
  · rw [if_pos hc]
    exact ⟨nofun, fun h => absurd hc h.1⟩
  · rw [if_neg hc]
    exact ⟨fun h => ⟨hc, h⟩, fun h => h.2⟩

theorem mapM_eq_ok {f : α → Except Error β} {l : List α} {bs : List β} :
    l.mapM f = .ok bs ↔ List.Forall₂ (fun a b => f a = .ok b) l bs := by
  induction l generalizing bs with
  | nil =>
    rw [List.mapM_nil, pure_eq_ok, List.forall₂_nil_left_iff]
    exact eq_comm
  | cons a l ih =>
    simp only [List.mapM_cons, bind_eq_ok, pure_eq_ok, ih, List.forall₂_cons_left_iff]
    constructor
    · rintro ⟨b, hb, bs', hbs, rfl⟩
      exact ⟨b, bs', hb, hbs, rfl⟩
    · rintro ⟨b, bs', hb, hbs, rfl⟩
      exact ⟨b, hb, bs', hbs, rfl⟩

/-- If each question of a list has an answer, the list has. -/
theorem exists_mapM {f : α → Except Error β} {l : List α} (h : ∀ a ∈ l, ∃ b, f a = .ok b) :
    ∃ bs, l.mapM f = .ok bs := by
  induction l with
  | nil => exact ⟨[], rfl⟩
  | cons a l ih =>
    rw [List.forall_mem_cons] at h
    obtain ⟨b, hb⟩ := h.1
    obtain ⟨bs, hbs⟩ := ih h.2
    exact ⟨b :: bs, by rw [List.mapM_cons, hb, hbs]; rfl⟩

/-- What each answer of a list of questions satisfies. -/
theorem forall_mem_of_mapM {f : α → Except Error β} {l : List α} {bs : List β} {P : β → Prop}
    (h : l.mapM f = .ok bs) (hP : ∀ a ∈ l, ∀ b, f a = .ok b → P b) : ∀ b ∈ bs, P b := by
  induction l generalizing bs with
  | nil =>
    cases h
    exact nofun
  | cons a l ih =>
    rw [List.mapM_cons] at h
    obtain ⟨b, hb, h⟩ := bind_eq_ok.1 h
    obtain ⟨rest, hrest, h⟩ := bind_eq_ok.1 h
    cases h
    rw [List.forall_mem_cons] at hP ⊢
    exact ⟨hP.1 b hb, ih hrest hP.2⟩

/-- Questions that agree on a list are the same question about the list. -/
theorem mapM_congr {f g : α → Except Error β} {l : List α} (h : ∀ a ∈ l, f a = g a) :
    l.mapM f = l.mapM g := by
  induction l with
  | nil => rfl
  | cons a l ih =>
    rw [List.forall_mem_cons] at h
    rw [List.mapM_cons, List.mapM_cons, h.1, ih h.2]

/-- A fold over the answers to questions, each asked when its turn comes, is the fold over all the answers. -/
theorem foldlM_bind_eq_ok {γ : Type} {f : γ → β → Except Error γ} {g : α → Except Error β} {l : List α} {c c' : γ} :
    (l.foldlM (fun c a => g a >>= f c) c) = .ok c' ↔
      ∃ bs, List.Forall₂ (fun a b => g a = .ok b) l bs ∧ bs.foldlM f c = .ok c' := by
  induction l generalizing c with
  | nil =>
    constructor
    · exact fun h => ⟨[], .nil, h⟩
    · rintro ⟨_, ⟨⟩, h⟩
      exact h
  | cons a l ih =>
    simp only [List.foldlM_cons, bind_eq_ok, ih]
    constructor
    · rintro ⟨c₁, ⟨b, hb, hc₁⟩, bs, hbs, hfold⟩
      exact ⟨b :: bs, .cons hb hbs, bind_eq_ok.2 ⟨c₁, hc₁, hfold⟩⟩
    · rintro ⟨_, hbs, hfold⟩
      cases hbs with
      | cons hb hbs =>
        obtain ⟨c₁, hc₁, hfold⟩ := bind_eq_ok.1 hfold
        exact ⟨c₁, ⟨_, hb, hc₁⟩, _, hbs, hfold⟩

/-- Such a fold fails at a question, or at the answers to the first ones. -/
theorem foldlM_bind_eq_error {γ : Type} {f : γ → β → Except Error γ} {g : α → Except Error β} {l : List α} {c : γ}
    (h : l.foldlM (fun c a => g a >>= f c) c = .error e) : (∃ a ∈ l, g a = .error e) ∨
      ∃ as bs, as <+: l ∧ List.Forall₂ (fun a b => g a = .ok b) as bs ∧ bs.foldlM f c = .error e := by
  induction l generalizing c with
  | nil => cases h
  | cons a l ih =>
    rw [List.foldlM_cons] at h
    cases hb : g a with
    | error e' =>
      rw [hb] at h
      cases h
      exact .inl ⟨a, List.mem_cons_self, hb⟩
    | ok b =>
      rw [hb] at h
      have h : (f c b >>= fun c => l.foldlM (fun c a => g a >>= f c) c) = .error e := h
      cases hc : f c b with
      | error e' =>
        rw [hc] at h
        cases h
        exact .inr ⟨[a], [b], ⟨l, rfl⟩, .cons hb .nil, by rw [List.foldlM_cons, hc]; rfl⟩
      | ok c₁ =>
        rw [hc] at h
        rcases ih h with ⟨a', ha', he⟩ | ⟨as, bs, hprefix, hbs, he⟩
        · exact .inl ⟨a', List.mem_cons_of_mem a ha', he⟩
        · refine .inr ⟨a :: as, b :: bs, List.cons_prefix_cons.2 ⟨rfl, hprefix⟩, .cons hb hbs, ?_⟩
          rw [List.foldlM_cons, hc]
          exact he

/-- Folds whose steps agree on a list are the same fold of the list. -/
theorem foldlM_congr {m : Type → Type} [Monad m] {f g : β → α → m β} {l : List α} {b : β}
    (h : ∀ a ∈ l, ∀ b, f b a = g b a) : l.foldlM f b = l.foldlM g b := by
  induction l generalizing b with
  | nil => rfl
  | cons a l ih =>
    rw [List.forall_mem_cons] at h
    rw [List.foldlM_cons, List.foldlM_cons, h.1]
    exact congrArg (g b a >>= ·) (funext fun _ => ih h.2)

theorem forM_eq_ok {f : α → Except Error Unit} {l : List α} :
    l.forM f = .ok ⟨⟩ ↔ ∀ a ∈ l, f a = .ok ⟨⟩ := by
  induction l with
  | nil => exact ⟨fun _ => nofun, fun _ => rfl⟩
  | cons a l ih =>
    have hcons : (a :: l).forM f = f a >>= fun _ => l.forM f := rfl
    rw [hcons, bind_eq_ok, List.forall_mem_cons]
    exact ⟨fun ⟨_, ha, hl⟩ => ⟨ha, ih.1 hl⟩, fun ⟨ha, hl⟩ => ⟨_, ha, ih.2 hl⟩⟩

end Questions

namespace Action

variable {σ τ α β : Type}

/-! ## Building blocks -/

theorem runOn_get (s : σ) : (get : Action σ σ).runOn s = (.ok s, s) := rfl

theorem runOn_modify (f : σ → σ) (s : σ) :
    (modify f : Action σ PUnit).runOn s = (.ok ⟨⟩, f s) := rfl

/-- A check that does not look at the state. -/
theorem runOn_lift (e : Except Error α) (s : σ) : (liftM e : Action σ α).runOn s = (e, s) := rfl

theorem runOn_bind_ok {x : Action σ α} {f : α → Action σ β} {s s' : σ} {a : α}
    (h : x.runOn s = (.ok a, s')) : (x >>= f).runOn s = (f a).runOn s' := by
  rw [runOn_bind, h]

theorem runOn_bind_error {x : Action σ α} {f : α → Action σ β} {s s' : σ} {e : Error}
    (h : x.runOn s = (.error e, s')) : (x >>= f).runOn s = (.error e, s') := by
  rw [runOn_bind, h]

/-- A sequence gives an answer if its first part does, and its second part from there on. -/
theorem runOn_bind_eq_ok {x : Action σ α} {f : α → Action σ β} {s s'' : σ} {b : β} :
    (x >>= f).runOn s = (.ok b, s'') ↔ ∃ a s', x.runOn s = (.ok a, s') ∧ (f a).runOn s' = (.ok b, s'') := by
  rcases hx : x.runOn s with ⟨e | a, s'⟩
  · rw [runOn_bind_error hx]
    exact ⟨nofun, fun ⟨_, _, h, _⟩ => by cases h⟩
  · rw [runOn_bind_ok hx]
    exact ⟨fun h => ⟨a, s', rfl, h⟩, fun ⟨_, _, h, hf⟩ => by cases h; exact hf⟩

/-- A question about the answer to another one that leaves the state alone. -/
theorem runOn_bind_asked {x : Action σ α} {s : σ} {r : Except Error α} (hx : x.runOn s = (r, s))
    (f : α → σ → Except Error β) : (x >>= fun a => look (f a)).runOn s = (r >>= fun a => f a s, s) := by
  cases r with
  | error e => exact runOn_bind_error hx
  | ok a => rw [runOn_bind_ok hx, runOn_look]; rfl

/-- An outcome that is made out of another one. -/
theorem outcome_map (x : Action σ α) (f : α → β) (s : σ) :
    ((do return f (← x) : Action σ β).runOn s).1 = (x.runOn s).1.map f := by
  rcases hrun : x.runOn s with ⟨e | a, s'⟩
  · rw [runOn_bind_error hrun]
    rfl
  · rw [runOn_bind_ok hrun]
    rfl

/-- Actions that leave the state alone give their answers one after the other. -/
theorem runOn_mapM {f : β → Action σ α} {bs : List β} {as : List α} {s : σ}
    (h : List.Forall₂ (fun b a => (f b).runOn s = (.ok a, s)) bs as) : (bs.mapM f).runOn s = (.ok as, s) := by
  induction h with
  | nil => rfl
  | cons hb _ ih => rw [List.mapM_cons, runOn_bind_ok hb, runOn_bind_ok ih, runOn_pure]

theorem runOn_mapM_range {f : Nat → Action σ α} {as : List α} {s : σ}
    (h : ∀ i a, as[i]? = some a → (f i).runOn s = (.ok a, s)) :
    ((List.range as.length).mapM f).runOn s = (.ok as, s) := by
  refine runOn_mapM (List.forall₂_iff_get.2 ⟨List.length_range, fun i hi hi' => ?_⟩)
  rw [List.get_eq_getElem, List.getElem_range]
  exact h i _ (List.getElem?_eq_getElem hi')

/-- What follows two actions may be taken to follow the first of them, whose answer it needs. -/
theorem runOn_regroup {γ : Type} (x : Action σ α) (y : α → Action σ β) (z : α → Action σ γ) (s : σ) :
    ((do let a ← x; let _ ← y a; return a) >>= z).runOn s = (do let a ← x; let _ ← y a; z a).runOn s := by
  rcases hx : x.runOn s with ⟨e | a, s'⟩
  · rw [runOn_bind_error (runOn_bind_error hx), runOn_bind_error hx]
  · rcases hy : (y a).runOn s' with ⟨e | b, s''⟩
    · rw [runOn_bind_error ((runOn_bind_ok hx).trans (runOn_bind_error hy)), runOn_bind_ok hx,
        runOn_bind_error hy]
    · rw [runOn_bind_ok ((runOn_bind_ok hx).trans ((runOn_bind_ok hy).trans (runOn_pure a s''))),
        runOn_bind_ok hx, runOn_bind_ok hy]

/-- A handler starts in the state in which the failure happened. -/
theorem runOn_tryCatch (x : Action σ α) (handler : Error → Action σ α) (s : σ) :
    (tryCatch x handler).runOn s =
      match x.runOn s with
      | (.ok a, s') => (.ok a, s')
      | (.error e, s') => (handler e).runOn s' := by
  simp only [runOn, tryCatch, tryCatchThe, MonadExceptOf.tryCatch, ExceptT.tryCatch, ExceptT.mk,
    ExceptT.run, StateT.run, bind, StateT.bind]
  rcases h : (x s : Except Error α × σ) with ⟨r, s'⟩
  cases r <;> rfl

/-! ## Guarantees -/

/-- A run of `x` from `s` changes the state as `R` allows, and `Q` holds of its answer, if it gives
one, and of the state it leaves. -/
structure Meets (R : σ → σ → Prop) (x : Action σ α) (s : σ) (Q : α → σ → Prop) : Prop where
  /-- How the state changes, whether the action succeeds or fails. -/
  kept : R s (x.runOn s).2
  answer : ∀ a, (x.runOn s).1 = .ok a → Q a (x.runOn s).2

namespace Meets

variable {R : σ → σ → Prop} {s : σ} {Q : α → σ → Prop} {P : β → σ → Prop}

/-- The guarantee of an action whose outcome is known. -/
theorem of_runOn {x : Action σ α} {r : Except Error α} {s' : σ} (h : x.runOn s = (r, s'))
    (hR : R s s') (hQ : ∀ a, r = .ok a → Q a s') : Meets R x s Q := by
  refine ⟨?_, ?_⟩
  · rw [h]; exact hR
  · intro a ha
    rw [h] at ha ⊢
    exact hQ a ha

theorem mono {x : Action σ α} {Q' : α → σ → Prop} (h : Meets R x s Q)
    (hQ : ∀ a s', R s s' → Q a s' → Q' a s') : Meets R x s Q' :=
  ⟨h.kept, fun a ha => hQ a _ h.kept (h.answer a ha)⟩

/-- The same guarantee under a wider relation. -/
theorem weaken {x : Action σ α} {R' : σ → σ → Prop} (h : Meets R x s Q)
    (hR : ∀ s', R s s' → R' s s') : Meets R' x s Q :=
  ⟨hR _ h.kept, h.answer⟩

/-- And the answer is the one that the run gave. -/
theorem ran {x : Action σ α} (h : Meets R x s Q) :
    Meets R x s fun a s' => x.runOn s = (.ok a, s') ∧ Q a s' :=
  ⟨h.kept, fun a ha => ⟨Prod.ext ha rfl, h.answer a ha⟩⟩

/-- What a guarantee says of a run that is known. -/
theorem answered {x : Action σ α} {a : α} {s' : σ} (h : Meets R x s Q) (hrun : x.runOn s = (.ok a, s')) :
    R s s' ∧ Q a s' := by
  obtain ⟨hkept, hanswer⟩ := h.ran
  rw [hrun] at hkept hanswer
  exact ⟨hkept, (hanswer a rfl).2⟩

section Rules

variable [Std.Refl R]

theorem pure {a : α} (h : Q a s) : Meets R (Pure.pure a) s Q :=
  of_runOn (runOn_pure a s) (Std.Refl.refl s) fun _ ha => by cases ha; exact h

theorem throw (e : Error) : Meets R (throw e : Action σ α) s Q :=
  of_runOn (runOn_throw e s) (Std.Refl.refl s) fun _ ha => by cases ha

theorem look {f : σ → Except Error α} (h : ∀ a, f s = .ok a → Q a s) : Meets R (look f) s Q :=
  of_runOn (runOn_look f s) (Std.Refl.refl s) h

theorem lift {e : Except Error α} (h : ∀ a, e = .ok a → Q a s) :
    Meets R (liftM e : Action σ α) s Q :=
  of_runOn (runOn_lift e s) (Std.Refl.refl s) h

/-! A question in front of an action leaves the state to the action as it is. -/

theorem look_bind {f : σ → Except Error β} {g : β → Action σ α}
    (h : ∀ b, f s = .ok b → Meets R (g b) s Q) : Meets R (Action.look f >>= g) s Q := by
  cases hf : f s with
  | error e =>
    have hrun : (Action.look f >>= g).runOn s = (.error e, s) :=
      runOn_bind_error (by rw [runOn_look, hf])
    exact of_runOn hrun (Std.Refl.refl s) fun _ ha => by cases ha
  | ok b =>
    have hrun : (Action.look f >>= g).runOn s = (g b).runOn s :=
      runOn_bind_ok (by rw [runOn_look, hf])
    exact of_runOn hrun (h b hf).kept (h b hf).answer

theorem lift_bind {e : Except Error β} {g : β → Action σ α}
    (h : ∀ b, e = .ok b → Meets R (g b) s Q) : Meets R ((liftM e : Action σ β) >>= g) s Q :=
  look_bind (f := fun _ => e) h

theorem throw_bind (e : Error) {g : β → Action σ α} :
    Meets R ((MonadExcept.throw e : Action σ β) >>= g) s Q :=
  of_runOn (runOn_bind_error (runOn_throw e s)) (Std.Refl.refl s) fun _ ha => by cases ha

/-- A check that stops the action when it fails. -/
theorem guard {c : Prop} [Decidable c] {e : Error} {g : β → Action σ α} {y : Action σ α}
    (h : ¬c → Meets R y s Q) : Meets R (if c then MonadExcept.throw e >>= g else y) s Q := by
  split
  · exact throw_bind e
  · rename_i hc
    exact h hc

end Rules

theorem get_bind {g : σ → Action σ α} (h : Meets R (g s) s Q) :
    Meets R ((MonadState.get : Action σ σ) >>= g) s Q :=
  of_runOn (runOn_bind_ok (runOn_get s)) h.kept h.answer

theorem pure_bind {b : β} {g : β → Action σ α} (h : Meets R (g b) s Q) :
    Meets R ((Pure.pure b : Action σ β) >>= g) s Q :=
  of_runOn (runOn_bind_ok (runOn_pure b s)) h.kept h.answer

/-- A sequence meets what its second part meets from where the first part stops. -/
theorem bind [Trans R R R] {x : Action σ β} {f : β → Action σ α}
    (hx : Meets R x s P) (hf : ∀ b s', R s s' → P b s' → Meets R (f b) s' Q) :
    Meets R (x >>= f) s Q := by
  rcases hrun : x.runOn s with ⟨r, s'⟩
  have hs' : R s s' := by have := hx.kept; rwa [hrun] at this
  cases r with
  | error e =>
    exact of_runOn (runOn_bind_error hrun) hs' fun _ ha => by cases ha
  | ok b =>
    have hP : P b s' := by
      have := hx.answer b (by rw [hrun])
      rwa [hrun] at this
    have h := hf b s' hs' hP
    refine ⟨?_, ?_⟩
    · rw [runOn_bind_ok hrun]; exact Trans.trans hs' h.kept
    · rw [runOn_bind_ok hrun]; exact h.answer

/-- What asks first goes on from where it started. -/
theorem ask_bind [Std.Refl R] {x : Action σ β} {f : β → Action σ α} (hx : Meets Eq x s P)
    (hf : ∀ b, P b s → Meets R (f b) s Q) : Meets R (x >>= f) s Q := by
  rcases hrun : x.runOn s with ⟨e | b, s'⟩
  · have hkept := hx.kept
    rw [hrun] at hkept
    subst hkept
    exact of_runOn (runOn_bind_error hrun) (Std.Refl.refl s) nofun
  · have hkept := hx.kept
    have hanswer := hx.answer b
    rw [hrun] at hkept hanswer
    subst hkept
    have h := hf b (hanswer rfl)
    exact of_runOn (runOn_bind_ok hrun) h.kept h.answer

theorem change {f : σ → σ} {Q : PUnit → σ → Prop} (hR : R s (f s)) (hQ : Q ⟨⟩ (f s)) :
    Meets R (modify f) s Q :=
  of_runOn (runOn_modify f s) hR fun _ _ => hQ

theorem change_bind [Trans R R R] {f : σ → σ} {g : PUnit → Action σ α} (hR : R s (f s))
    (h : Meets R (g ⟨⟩) (f s) Q) : Meets R ((modify f : Action σ PUnit) >>= g) s Q := by
  have hrun : ((modify f : Action σ PUnit) >>= g).runOn s = (g ⟨⟩).runOn (f s) :=
    runOn_bind_ok (runOn_modify f s)
  refine ⟨?_, ?_⟩
  · rw [hrun]; exact Trans.trans hR h.kept
  · rw [hrun]; exact h.answer

theorem ite {c : Prop} [Decidable c] {x y : Action σ α} (hx : c → Meets R x s Q)
    (hy : ¬c → Meets R y s Q) : Meets R (if c then x else y) s Q := by
  split
  · rename_i h; exact hx h
  · rename_i h; exact hy h

/-- A handler has to meet the guarantee from the state in which the action failed. -/
theorem tryCatch [Trans R R R] {x : Action σ α}
    {handler : Error → Action σ α} (hx : Meets R x s Q)
    (hh : ∀ e s', x.runOn s = (.error e, s') → R s s' → Meets R (handler e) s' Q) :
    Meets R (tryCatch x handler) s Q := by
  rcases hrun : x.runOn s with ⟨r, s'⟩
  have hs' : R s s' := by have := hx.kept; rwa [hrun] at this
  have hcatch := runOn_tryCatch x handler s
  rw [hrun] at hcatch
  cases r with
  | ok a =>
    refine of_runOn hcatch hs' ?_
    intro a' ha'
    have := hx.answer a' (by rw [hrun]; exact ha')
    rwa [hrun] at this
  | error e =>
    have h := hh e s' hrun hs'
    refine ⟨?_, ?_⟩
    · rw [hcatch]; exact Trans.trans hs' h.kept
    · rw [hcatch]; exact h.answer

theorem recover [Trans R R R] [Std.Refl R] {x : Action σ α} {handle : Error → Action σ α} (hx : Meets R x s Q)
    (hh : ∀ e s', x.runOn s = (.error e, s') → R s s' → Meets R (handle e) s' Q) :
    Meets R (x.recover handle) s Q :=
  tryCatch hx fun e s' hrun hR => ite (fun _ => throw e) fun _ => hh e s' hrun hR

/-- An action whose failure is part of its answer. -/
theorem attempt {x : Action σ α} (h : Meets R x s Q) :
    Meets R x.attempt s fun r s' => ∀ a, r = .ok a → Q a s' :=
  of_runOn (runOn_attempt x s) h.kept fun r hr a ha => by
    cases hr
    exact h.answer a ha

/-- An action on a part of the state, seen from the whole. -/
theorem focus {part : σ → τ} {store : σ → τ → σ} {T : τ → τ → Prop} {x : Action τ α}
    {Q' : α → τ → Prop} (h : Meets T x (part s) Q') (hR : ∀ t, T (part s) t → R s (store s t))
    (hQ : ∀ a t, Q' a t → Q a (store s t)) : Meets R (Action.focus part store x) s Q :=
  of_runOn (runOn_focus part store x s) (hR _ h.kept) fun a ha => hQ a _ (h.answer a ha)

/-! ## Lists -/

section Lists

variable [Std.Refl R] [Trans R R R]

/-- An action for each element of a list, from states that satisfy `I`. What holds of an element and
its answer goes on to hold. -/
theorem mapM {γ : Type} {I : σ → Prop} {P : γ → β → σ → Prop} {f : γ → Action σ β} (l : List γ)
    (hs : I s) (hI : ∀ s s', I s → R s s' → I s')
    (hP : ∀ c b s s', I s → R s s' → P c b s → P c b s')
    (hf : ∀ c ∈ l, ∀ s, I s → Meets R (f c) s (P c)) :
    Meets R (l.mapM f) s fun bs s' => List.Forall₂ (fun c b => P c b s') l bs := by
  induction l generalizing s with
  | nil =>
    rw [List.mapM_nil]
    exact pure .nil
  | cons c l ih =>
    rw [List.mapM_cons]
    refine bind (hf c List.mem_cons_self s hs) fun b s' hR hb => ?_
    have hs' := hI s s' hs hR
    refine bind (ih hs' fun c' hc' => hf c' (List.mem_cons_of_mem _ hc')) ?_
    intro bs s'' hR' hbs
    exact pure (.cons (hP c b s' s'' hs' hR' hb) hbs)

theorem foldlM {f : α → β → Action σ α} {a : α} (l : List β)
    (hf : ∀ a, ∀ b ∈ l, ∀ s, Meets R (f a b) s fun _ _ => True) : Meets R (l.foldlM f a) s fun _ _ => True := by
  induction l generalizing a s with
  | nil => exact pure trivial
  | cons b l ih =>
    rw [List.foldlM_cons]
    exact bind (hf a b List.mem_cons_self s) fun _ _ _ _ => ih fun a c hc => hf a c (List.mem_cons_of_mem _ hc)

theorem forM {I : σ → Prop} {f : β → Action σ PUnit} (l : List β) (hs : I s)
    (hI : ∀ s s', I s → R s s' → I s') (hf : ∀ b ∈ l, ∀ s, I s → Meets R (f b) s fun _ _ => True) :
    Meets R (l.forM f) s fun _ _ => True := by
  induction l generalizing s with
  | nil => exact pure trivial
  | cons b l ih =>
    refine bind (hf b List.mem_cons_self s hs) fun _ s' hR _ => ?_
    exact ih (hI s s' hs hR) fun b' hb' => hf b' (List.mem_cons_of_mem _ hb')

end Lists

end Meets

/-! ## Failures -/

/-- A run of `x` from `s` gives an answer as `Q` says, or fails in a state as `E` says. -/
structure Ends (x : Action σ α) (s : σ) (Q : α → σ → Prop) (E : σ → Prop) : Prop where
  answer : ∀ a s', x.runOn s = (.ok a, s') → Q a s'
  failure : ∀ e s', x.runOn s = (.error e, s') → E s'

namespace Ends

variable {s s' : σ} {x : Action σ α} {Q : α → σ → Prop} {P : β → σ → Prop} {E E' : σ → Prop}

theorem of_ok {a : α} (h : x.runOn s = (.ok a, s')) (hQ : Q a s') : Ends x s Q E := by
  refine ⟨fun a' s'' h' => ?_, fun e s'' h' => ?_⟩
  · rw [h] at h'
    cases h'
    exact hQ
  · rw [h] at h'
    cases h'

theorem of_error {e : Error} (h : x.runOn s = (.error e, s')) (hE : E s') : Ends x s Q E := by
  refine ⟨fun a' s'' h' => ?_, fun e s'' h' => ?_⟩
  · rw [h] at h'
    cases h'
  · rw [h] at h'
    cases h'
    exact hE

/-- Another action with the same run. -/
theorem congr {y : Action σ α} (h : x.runOn s = y.runOn s) (hy : Ends y s Q E) : Ends x s Q E :=
  ⟨fun a s' hrun => hy.answer a s' (h ▸ hrun), fun e s' hrun => hy.failure e s' (h ▸ hrun)⟩

/-- What is kept whatever the outcome is kept by a failure. -/
theorem of_meets {R : σ → σ → Prop} (h : Meets R x s Q) :
    Ends x s (fun a s' => R s s' ∧ Q a s') (R s) := by
  refine ⟨fun a s' hrun => ?_, fun e s' hrun => ?_⟩
  · have hkept := h.kept
    have hanswer := h.answer a
    rw [hrun] at hkept hanswer
    exact ⟨hkept, hanswer rfl⟩
  · have hkept := h.kept
    rwa [hrun] at hkept

theorem mono {Q' : α → σ → Prop} (h : Ends x s Q E) (hQ : ∀ a s', Q a s' → Q' a s')
    (hE : ∀ s', E s' → E' s') : Ends x s Q' E' :=
  ⟨fun a s' hrun => hQ a s' (h.answer a s' hrun), fun e s' hrun => hE s' (h.failure e s' hrun)⟩

/-- What is guaranteed of answers only. -/
theorem answers (h : Ends x s Q E) : Ends x s Q fun _ => True := h.mono (fun _ _ => id) fun _ _ => trivial

theorem and {Q' : α → σ → Prop} (h : Ends x s Q E) (h' : Ends x s Q' E') :
    Ends x s (fun a s' => Q a s' ∧ Q' a s') fun s' => E s' ∧ E' s' :=
  ⟨fun a s' hrun => ⟨h.answer a s' hrun, h'.answer a s' hrun⟩,
    fun e s' hrun => ⟨h.failure e s' hrun, h'.failure e s' hrun⟩⟩

/-- What the state is whatever the outcome. -/
theorem of_state {I : σ → Prop} (h : I (x.runOn s).2) : Ends x s (fun _ => I) I := by
  refine ⟨fun a s' hrun => ?_, fun e s' hrun => ?_⟩
  · rwa [hrun] at h
  · rwa [hrun] at h

theorem state {I : σ → Prop} (h : Ends x s (fun _ => I) I) : I (x.runOn s).2 := by
  rcases hrun : x.runOn s with ⟨e | a, s'⟩
  · exact h.failure e s' hrun
  · exact h.answer a s' hrun

theorem throw (e : Error) (hE : E s) : Ends (throw e : Action σ α) s Q E :=
  of_error (runOn_throw e s) hE

theorem bind {y : Action σ β} {f : β → Action σ α} (hy : Ends y s P E)
    (hf : ∀ b s', P b s' → Ends (f b) s' Q E) : Ends (y >>= f) s Q E := by
  rcases hrun : y.runOn s with ⟨e | b, s'⟩
  · exact of_error (runOn_bind_error hrun) (hy.failure e s' hrun)
  · have h := hf b s' (hy.answer b s' hrun)
    refine ⟨fun a s'' hrun' => ?_, fun e s'' hrun' => ?_⟩
    · rw [runOn_bind_ok hrun] at hrun'
      exact h.answer a s'' hrun'
    · rw [runOn_bind_ok hrun] at hrun'
      exact h.failure e s'' hrun'

/-- A first part whose outcome is known. -/
theorem bind_ok {y : Action σ β} {f : β → Action σ α} {b : β} (hy : y.runOn s = (.ok b, s'))
    (hf : Ends (f b) s' Q E) : Ends (y >>= f) s Q E :=
  bind (P := fun c t => c = b ∧ t = s') (of_ok hy ⟨rfl, rfl⟩) fun _ _ h => by
    rw [h.1, h.2]
    exact hf

theorem look_bind {f : σ → Except Error β} {g : β → Action σ α} (hE : E s)
    (h : ∀ b, f s = .ok b → Ends (g b) s Q E) : Ends (Action.look f >>= g) s Q E := by
  refine bind (P := fun b s' => f s = .ok b ∧ s' = s) ?_ fun b s' hb => ?_
  · refine ⟨fun b s' hrun => ?_, fun e s' hrun => ?_⟩
    · rw [runOn_look] at hrun
      obtain ⟨hf, rfl⟩ := Prod.mk.inj hrun
      exact ⟨hf, rfl⟩
    · rw [runOn_look] at hrun
      obtain ⟨-, rfl⟩ := Prod.mk.inj hrun
      exact hE
  · rw [hb.2]
    exact h b hb.1

theorem lift_bind {r : Except Error β} {g : β → Action σ α} (hE : E s)
    (h : ∀ b, r = .ok b → Ends (g b) s Q E) : Ends ((liftM r : Action σ β) >>= g) s Q E :=
  look_bind (f := fun _ => r) hE h

theorem guard {c : Prop} [Decidable c] {e : Error} {g : β → Action σ α} {y : Action σ α} (hE : c → E s)
    (h : ¬c → Ends y s Q E) : Ends (if c then MonadExcept.throw e >>= g else y) s Q E := by
  split
  · rename_i hc
    exact of_error (runOn_bind_error (runOn_throw e s)) (hE hc)
  · rename_i hc
    exact h hc

/-- A handler starts where the action failed. -/
theorem tryCatch {handler : Error → Action σ α} (hx : Ends x s Q E')
    (hh : ∀ e s', E' s' → Ends (handler e) s' Q E) : Ends (tryCatch x handler) s Q E := by
  rcases hrun : x.runOn s with ⟨e | a, s'⟩
  · have hcatch : (MonadExcept.tryCatch x handler).runOn s = (handler e).runOn s' := by
      rw [runOn_tryCatch, hrun]
    have h := hh e s' (hx.failure e s' hrun)
    refine ⟨fun a s'' hrun' => ?_, fun e s'' hrun' => ?_⟩
    · rw [hcatch] at hrun'
      exact h.answer a s'' hrun'
    · rw [hcatch] at hrun'
      exact h.failure e s'' hrun'
  · exact of_ok (by rw [runOn_tryCatch, hrun]) (hx.answer a s' hrun)

theorem ite {c : Prop} [Decidable c] {y : Action σ α} (hx : c → Ends x s Q E) (hy : ¬c → Ends y s Q E) :
    Ends (if c then x else y) s Q E := by
  split
  · rename_i hc
    exact hx hc
  · rename_i hc
    exact hy hc

end Ends

end Action

end TypedHeap
