import TypedHeap.Error

/-!
# Actions: computations on a state that may fail

An `Action σ α` reads and changes a state `σ` and ends with a value or an `Error`. A failure keeps
the state that was reached when it happened: an allocation made on the way stays made.

* `Action.look`: a question about the state; it changes nothing.
* `Action.focus`: run an action on one part of a larger state; the rest stays as it is.
* `Action.attempt`: run an action and go on with its outcome, whether it failed or not.
* `Action.recover`: run an action and handle its errors, which an overflow is not.
* `Action.runOn`: the outcome and the state after it.
-/

namespace TypedHeap

/-- A computation on a state `σ` that ends with a value or an error, and with a state either way. -/
abbrev Action (σ α : Type) : Type := ExceptT Error (StateM σ) α

namespace Action

variable {σ τ α : Type}

/-- The outcome of an action started in a state, and the state it leaves. -/
def runOn (x : Action σ α) (s : σ) : Except Error α × σ := x.run.run s

/-- Ask the state a question that may fail. -/
def look (f : σ → Except Error α) : Action σ α :=
  ExceptT.mk fun s => (f s, s)

/-- Run an action on the part of the state that `part` picks and `store` puts back. -/
def focus (part : σ → τ) (store : σ → τ → σ) (x : Action τ α) : Action σ α :=
  ExceptT.mk fun s =>
    let (r, t) := x.runOn (part s)
    (r, store s t)

/-- The outcome of an action as a value; this itself never fails. -/
def attempt (x : Action σ α) : Action σ (Except Error α) :=
  ExceptT.mk fun s =>
    let (r, s') := x.runOn s
    (.ok r, s')

/-- Run an action and handle the error that it reports. Nobody handles an overflow. -/
def recover (x : Action σ α) (handle : Error → Action σ α) : Action σ α :=
  tryCatch x fun e => if e = .overflow then throw e else handle e

theorem runOn_attempt (x : Action σ α) (s : σ) :
    x.attempt.runOn s = (.ok (x.runOn s).1, (x.runOn s).2) := rfl

theorem runOn_look (f : σ → Except Error α) (s : σ) : (look f).runOn s = (f s, s) := rfl

theorem runOn_focus (part : σ → τ) (store : σ → τ → σ) (x : Action τ α) (s : σ) :
    (focus part store x).runOn s = ((x.runOn (part s)).1, store s (x.runOn (part s)).2) := rfl

theorem runOn_pure (a : α) (s : σ) : (pure a : Action σ α).runOn s = (.ok a, s) := rfl

theorem runOn_throw (e : Error) (s : σ) : (throw e : Action σ α).runOn s = (.error e, s) := rfl

/-- A sequence runs its second part on what the first one left, if the first one succeeded. -/
theorem runOn_bind {β : Type} (x : Action σ α) (f : α → Action σ β) (s : σ) :
    (x >>= f).runOn s =
      match x.runOn s with
      | (.ok a, s') => (f a).runOn s'
      | (.error e, s') => (.error e, s') := by
  simp only [runOn, bind, ExceptT.bind, ExceptT.mk, ExceptT.run, StateT.run, StateT.bind]
  rcases h : (x s : Except Error α × σ) with ⟨r, s'⟩
  cases r <;> rfl

end Action

end TypedHeap
