import TypedHeap.Proofs.Action

/-!
# Which errors a run can end with

* `Raises r E`: if the outcome `r` of a question is an error, it is one of `E`.
* `Action.Fails x s E`: the same for a run of the action `x` from `s`.
* `Action.Yields x s Q`: a run that does not end with an error at all, and of whose answer `Q` holds.

There is one rule for each way of building an action. Where a second part depends on what a first part
has left, `Fails.bind` takes that from a guarantee of the first part.
-/

namespace TypedHeap

variable {α β σ τ : Type} {E : Error → Prop}

/-! ## Questions -/

/-- An outcome that is an answer or an error of `E`. -/
def Raises (r : Except Error α) (E : Error → Prop) : Prop := ∀ e, r = .error e → E e

namespace Raises

theorem ok {a : α} : Raises (.ok a) E := nofun

theorem pure {a : α} : Raises (Pure.pure a) E := nofun

theorem error {e : Error} (he : E e) : Raises (.error e : Except Error α) E := by
  intro e' h
  cases h
  exact he

theorem throw {e : Error} (he : E e) : Raises (MonadExcept.throw e : Except Error α) E := error he

/-- A question that has an answer. -/
theorem of_eq_ok {r : Except Error α} {a : α} (h : r = .ok a) : Raises r E := by
  rw [h]
  exact ok

theorem mono {r : Except Error α} {E' : Error → Prop} (h : Raises r E) (hE : ∀ e, E e → E' e) : Raises r E' :=
  fun e he => hE e (h e he)

theorem bind {x : Except Error β} {f : β → Except Error α} (hx : Raises x E)
    (hf : ∀ b, x = .ok b → Raises (f b) E) : Raises (x >>= f) E := by
  cases x with
  | error e => exact error (hx e rfl)
  | ok b => exact hf b rfl

theorem throw_bind {e : Error} {f : β → Except Error α} (he : E e) :
    Raises ((MonadExcept.throw e : Except Error β) >>= f) E :=
  bind (throw he) fun _ h => nomatch h

theorem guard {c : Prop} [Decidable c] {e : Error} {f : β → Except Error α} {y : Except Error α}
    (he : c → E e) (hy : ¬c → Raises y E) : Raises (if c then MonadExcept.throw e >>= f else y) E := by
  split
  · rename_i hc
    exact throw_bind (he hc)
  · rename_i hc
    exact hy hc

theorem ite {c : Prop} [Decidable c] {x y : Except Error α} (hx : c → Raises x E) (hy : ¬c → Raises y E) :
    Raises (if c then x else y) E := by
  split
  · rename_i hc
    exact hx hc
  · rename_i hc
    exact hy hc

theorem dite {c : Prop} [Decidable c] {x : c → Except Error α} {y : ¬c → Except Error α}
    (hx : ∀ h, Raises (x h) E) (hy : ∀ h, Raises (y h) E) : Raises (if h : c then x h else y h) E := by
  by_cases h : c
  · rw [dif_pos h]
    exact hx h
  · rw [dif_neg h]
    exact hy h

theorem forM {f : β → Except Error PUnit} {l : List β} (hf : ∀ b ∈ l, Raises (f b) E) : Raises (l.forM f) E := by
  induction l with
  | nil => exact pure
  | cons b l ih =>
    refine bind (hf b List.mem_cons_self) fun _ _ => ih fun c hc => ?_
    exact hf c (List.mem_cons_of_mem _ hc)

theorem mapM {f : β → Except Error α} {l : List β} (hf : ∀ b ∈ l, Raises (f b) E) : Raises (l.mapM f) E := by
  induction l with
  | nil =>
    rw [List.mapM_nil]
    exact pure
  | cons b l ih =>
    rw [List.mapM_cons]
    refine bind (hf b List.mem_cons_self) fun _ _ => bind (ih fun c hc => ?_) fun _ _ => pure
    exact hf c (List.mem_cons_of_mem _ hc)

theorem foldlM {γ : Type} {f : γ → β → Except Error γ} {l : List β} {c : γ} (hf : ∀ c, ∀ b ∈ l, Raises (f c b) E) :
    Raises (l.foldlM f c) E := by
  induction l generalizing c with
  | nil => exact pure
  | cons b l ih =>
    rw [List.foldlM_cons]
    exact bind (hf c b List.mem_cons_self) fun _ _ => ih fun c d hd => hf c d (List.mem_cons_of_mem _ hd)

end Raises

/-! ## Actions -/

namespace Action

/-- A run of `x` from `s` ends with an answer or with an error of `E`. -/
def Fails (x : Action σ α) (s : σ) (E : Error → Prop) : Prop := Raises (x.runOn s).1 E

namespace Fails

variable {x : Action σ α} {s s' : σ}

theorem of_runOn {r : Except Error α} (h : x.runOn s = (r, s')) (hr : Raises r E) : Fails x s E := by
  rw [Fails, h]
  exact hr

theorem mono {E' : Error → Prop} (h : Fails x s E) (hE : ∀ e, E e → E' e) : Fails x s E' := Raises.mono h hE

theorem pure {a : α} : Fails (Pure.pure a) s E := of_runOn (runOn_pure a s) .ok

theorem throw {e : Error} (he : E e) : Fails (throw e : Action σ α) s E := of_runOn (runOn_throw e s) (.error he)

theorem look {f : σ → Except Error α} (h : Raises (f s) E) : Fails (look f) s E := of_runOn (runOn_look f s) h

theorem lift {r : Except Error α} (h : Raises r E) : Fails (liftM r : Action σ α) s E :=
  of_runOn (runOn_lift r s) h

/-- The second part starts with the answer and the state that the first part gave. -/
theorem bind_ran {y : Action σ β} {f : β → Action σ α} (hy : Fails y s E)
    (hf : ∀ b s', y.runOn s = (.ok b, s') → Fails (f b) s' E) : Fails (y >>= f) s E := by
  rcases hrun : y.runOn s with ⟨e | b, s'⟩
  · exact of_runOn (runOn_bind_error hrun) (.error (hy e (by rw [hrun])))
  · rw [Fails, runOn_bind_ok hrun]
    exact hf b s' hrun

/-- The second part starts where a guarantee says that the first part stops. -/
theorem bind {R : σ → σ → Prop} {P : β → σ → Prop} {y : Action σ β} {f : β → Action σ α} (hy : Fails y s E)
    (hm : Meets R y s P) (hf : ∀ b s', R s s' → P b s' → Fails (f b) s' E) : Fails (y >>= f) s E := by
  refine bind_ran hy fun b s' hrun => ?_
  have hkept := hm.kept
  have hanswer := hm.answer b
  rw [hrun] at hkept hanswer
  exact hf b s' hkept (hanswer rfl)

theorem look_bind {f : σ → Except Error β} {g : β → Action σ α} (hf : Raises (f s) E)
    (hg : ∀ b, f s = .ok b → Fails (g b) s E) : Fails (Action.look f >>= g) s E := by
  refine bind_ran (look hf) fun b s' hrun => ?_
  rw [runOn_look] at hrun
  obtain ⟨hb, rfl⟩ := Prod.mk.inj hrun
  exact hg b hb

theorem lift_bind {r : Except Error β} {g : β → Action σ α} (hr : Raises r E)
    (hg : ∀ b, r = .ok b → Fails (g b) s E) : Fails ((liftM r : Action σ β) >>= g) s E :=
  look_bind (f := fun _ => r) hr hg

theorem throw_bind {e : Error} {g : β → Action σ α} (he : E e) :
    Fails ((MonadExcept.throw e : Action σ β) >>= g) s E :=
  bind_ran (throw he) fun _ _ h => nomatch h

theorem get_bind {g : σ → Action σ α} (h : Fails (g s) s E) : Fails ((MonadState.get : Action σ σ) >>= g) s E := by
  rw [Fails, runOn_bind_ok (runOn_get s)]
  exact h

theorem pure_bind {b : β} {g : β → Action σ α} (h : Fails (g b) s E) :
    Fails ((Pure.pure b : Action σ β) >>= g) s E := by
  rw [Fails, runOn_bind_ok (runOn_pure b s)]
  exact h

theorem guard {c : Prop} [Decidable c] {e : Error} {g : β → Action σ α} {y : Action σ α} (he : c → E e)
    (hy : ¬c → Fails y s E) : Fails (if c then MonadExcept.throw e >>= g else y) s E := by
  split
  · rename_i hc
    exact throw_bind (he hc)
  · rename_i hc
    exact hy hc

theorem ite {c : Prop} [Decidable c] {y : Action σ α} (hx : c → Fails x s E) (hy : ¬c → Fails y s E) :
    Fails (if c then x else y) s E := by
  split
  · rename_i hc
    exact hx hc
  · rename_i hc
    exact hy hc

theorem change {f : σ → σ} : Fails (modify f : Action σ PUnit) s E := of_runOn (runOn_modify f s) .ok

theorem change_bind {f : σ → σ} {g : PUnit → Action σ α} (h : Fails (g ⟨⟩) (f s) E) :
    Fails ((modify f : Action σ PUnit) >>= g) s E := by
  rw [Fails, runOn_bind_ok (runOn_modify f s)]
  exact h

theorem focus {part : σ → τ} {store : σ → τ → σ} {y : Action τ α} (h : Fails y (part s) E) :
    Fails (Action.focus part store y) s E :=
  of_runOn (runOn_focus part store y s) h

theorem attempt : Fails x.attempt s E := of_runOn (runOn_attempt x s) .ok

/-- The handler starts where the action failed. -/
theorem tryCatch {E' : Error → Prop} {handler : Error → Action σ α} (hx : Fails x s E')
    (hh : ∀ e s', E' e → x.runOn s = (.error e, s') → Fails (handler e) s' E) :
    Fails (tryCatch x handler) s E := by
  rcases hrun : x.runOn s with ⟨e | a, s'⟩
  · have hcatch : (MonadExcept.tryCatch x handler).runOn s = (handler e).runOn s' := by rw [runOn_tryCatch, hrun]
    rw [Fails, hcatch]
    exact hh e s' (hx e (by rw [hrun])) hrun
  · exact of_runOn (by rw [runOn_tryCatch, hrun]) .ok

/-! ### Lists -/

/-- Actions that end alike wherever they start, one after the other. -/
theorem mapM_of_forall {f : β → Action σ α} {l : List β} (hf : ∀ b ∈ l, ∀ s, Fails (f b) s E) :
    Fails (l.mapM f) s E := by
  induction l generalizing s with
  | nil =>
    rw [List.mapM_nil]
    exact pure
  | cons b l ih =>
    rw [List.mapM_cons]
    refine bind_ran (hf b List.mem_cons_self s) fun _ _ _ => bind_ran (ih fun c hc => ?_) fun _ _ _ => pure
    exact hf c (List.mem_cons_of_mem _ hc)

theorem foldlM_of_forall {f : α → β → Action σ α} {l : List β} {a : α}
    (hf : ∀ a, ∀ b ∈ l, ∀ s, Fails (f a b) s E) : Fails (l.foldlM f a) s E := by
  induction l generalizing a s with
  | nil => exact pure
  | cons b l ih =>
    rw [List.foldlM_cons]
    exact bind_ran (hf a b List.mem_cons_self s) fun _ _ _ => ih fun a c hc => hf a c (List.mem_cons_of_mem _ hc)

end Fails

/-! ## Success -/

/-- A run of `x` from `s` succeeds, and `Q` holds of its answer and the state that it leaves. -/
def Yields (x : Action σ α) (s : σ) (Q : α → σ → Prop) : Prop := ∃ a s', x.runOn s = (.ok a, s') ∧ Q a s'

namespace Yields

variable {x : Action σ α} {s s' : σ} {Q : α → σ → Prop} {P : β → σ → Prop}

theorem of_ok {a : α} (h : x.runOn s = (.ok a, s')) (hQ : Q a s') : Yields x s Q := ⟨a, s', h, hQ⟩

/-- Runs that are the same yield the same. -/
theorem of_runOn_eq {y : Action σ α} (h : x.runOn s = y.runOn s') (hy : Yields y s' Q) : Yields x s Q := by
  obtain ⟨a, s'', hrun, hQ⟩ := hy
  exact of_ok (h.trans hrun) hQ

theorem pure {a : α} (hQ : Q a s) : Yields (Pure.pure a) s Q := of_ok (runOn_pure a s) hQ

/-- An action without errors to fail with gives the answer that it is guaranteed to give. -/
theorem of_fails {R : σ → σ → Prop} (hx : Fails x s fun _ => False) (hm : Meets R x s Q) :
    Yields x s fun a s' => R s s' ∧ Q a s' := by
  rcases hrun : x.runOn s with ⟨e | a, s'⟩
  · exact (hx e (by rw [hrun])).elim
  · exact of_ok hrun ((Ends.of_meets hm).answer a s' hrun)

/-- So does an action that cannot end in any state when it fails. -/
theorem of_ends (h : Ends x s Q fun _ => False) : Yields x s Q := by
  rcases hrun : x.runOn s with ⟨e | a, s'⟩
  · exact (h.failure e s' hrun).elim
  · exact of_ok hrun (h.answer a s' hrun)

theorem mono {Q' : α → σ → Prop} (h : Yields x s Q) (hQ : ∀ a s', Q a s' → Q' a s') : Yields x s Q' := by
  obtain ⟨a, s', hrun, hQa⟩ := h
  exact of_ok hrun (hQ a s' hQa)

/-- What holds of every answer holds of the one that there is. -/
theorem ends {Q' : α → σ → Prop} {E : σ → Prop} (h : Yields x s Q) (he : Ends x s Q' E) :
    Yields x s fun a s' => Q a s' ∧ Q' a s' := by
  obtain ⟨a, s', hrun, hQa⟩ := h
  exact of_ok hrun ⟨hQa, he.answer a s' hrun⟩

theorem bind {y : Action σ β} {f : β → Action σ α} (hy : Yields y s P)
    (hf : ∀ b s', P b s' → Yields (f b) s' Q) : Yields (y >>= f) s Q := by
  obtain ⟨b, s', hrun, hP⟩ := hy
  obtain ⟨a, s'', hrun', hQ⟩ := hf b s' hP
  exact of_ok ((runOn_bind_ok hrun).trans hrun') hQ

/-- A first part whose outcome is known. -/
theorem bind_ok {y : Action σ β} {f : β → Action σ α} {b : β} (hy : y.runOn s = (.ok b, s'))
    (hf : Yields (f b) s' Q) : Yields (y >>= f) s Q := by
  obtain ⟨a, s'', hrun, hQ⟩ := hf
  exact of_ok ((runOn_bind_ok hy).trans hrun) hQ

theorem look_bind {f : σ → Except Error β} {g : β → Action σ α} {b : β} (hf : f s = .ok b)
    (hg : Yields (g b) s Q) : Yields (Action.look f >>= g) s Q :=
  bind_ok (by rw [runOn_look, hf]) hg

/-- What succeeds does not fail. -/
theorem fails {E : Error → Prop} (h : Yields x s Q) : Fails x s E := by
  obtain ⟨a, s', hrun, -⟩ := h
  exact .of_runOn hrun .ok

end Yields

/-- A handler starts where the action failed, if the failure is one that is handled. -/
theorem Ends.recover {x : Action σ α} {s : σ} {Q : α → σ → Prop} {P R : σ → Prop} {handle : Error → Action σ α}
    (hx : Ends x s Q P) (hover : Fails x s (· ≠ .overflow)) (hh : ∀ e s', P s' → Ends (handle e) s' Q R) :
    Ends (x.recover handle) s Q R := by
  rcases hrun : x.runOn s with ⟨e | a, s'⟩
  · have hne : e ≠ .overflow := hover e (by rw [hrun])
    have hcatch : (x.recover handle).runOn s = (handle e).runOn s' := by
      rw [Action.recover, runOn_tryCatch, hrun]
      exact congrArg (runOn · s') (if_neg hne)
    have h := hh e s' (hx.failure e s' hrun)
    refine ⟨fun a s'' hrun' => ?_, fun e s'' hrun' => ?_⟩
    · rw [hcatch] at hrun'
      exact h.answer a s'' hrun'
    · rw [hcatch] at hrun'
      exact h.failure e s'' hrun'
  · exact of_ok (by rw [Action.recover, runOn_tryCatch, hrun]) (hx.answer a s' hrun)

end Action

end TypedHeap
