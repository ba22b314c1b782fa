import TypedHeap.Heap.Allocate
import TypedHeap.Proofs.Action

/-!
# Arithmetic in words

Offsets and sizes are words of 64 bits, and the machine computes with words. Here an action is written out with
every product, sum and difference as a step of its own. A step whose result is not a word stops the whole run,
without an answer and without an error. So a run that comes to what the action comes to has computed nothing but
words.

* `WordM`: actions on a heap that may stop in this way.
* `WordM.product`, `WordM.sum`, `WordM.difference`: a step of arithmetic.
* `WordM.ofAction`: an action as it is.
* `WordM.Follows`: nothing stops, and the outcome is that of an action.

Main results: the rules by which one follows an action step by step, `Follows.bind`, `value_bind`, `product`, `sum`,
`difference`, `ite` and `recover`.
-/

namespace TypedHeap

/-- Actions on a heap that stop where a number is not a word. -/
abbrev WordM : Type → Type := ExceptT Error (StateT Heap Option)

namespace WordM

open TypedHeap.Heap (maxWord)

variable {α β : Type}

/-- What an action comes to, unless it stops. -/
def runOn (c : WordM α) (h : Heap) : Option (Except Error α × Heap) := c.run.run h

/-- An action as it is. What it computes on its own is not looked at. -/
def ofAction (x : HeapM α) : WordM α := ExceptT.mk fun h => some (x.runOn h)

/-- A number, if there is one. -/
def number (n : Option Nat) : WordM Nat := ExceptT.lift (StateT.lift n)

def product (a b : Nat) : WordM Nat := number (if a * b ≤ maxWord then some (a * b) else none)

def sum (a b : Nat) : WordM Nat := number (if a + b ≤ maxWord then some (a + b) else none)

def difference (a b : Nat) : WordM Nat := number (if b ≤ a then some (a - b) else none)

/-- Run an action and handle its errors, which an overflow is not. -/
def recover (c : WordM α) (handle : Error → WordM α) : WordM α :=
  tryCatch c fun e => if e = .overflow then throw e else handle e

/-- Nothing stops, and the outcome is that of an action. -/
def Follows (c : WordM α) (x : HeapM α) (h : Heap) : Prop := c.runOn h = some (x.runOn h)

namespace Follows

variable {c : WordM α} {x y : HeapM α} {h : Heap} {a b : Nat}

theorem ofAction (x : HeapM α) : Follows (WordM.ofAction x) x h := rfl

theorem pure (r : α) : Follows (Pure.pure r) (Pure.pure r) h := rfl

theorem congr (hc : Follows c x h) (hrun : y.runOn h = x.runOn h) : Follows c y h := hc.trans (congrArg some hrun.symm)

/-! ## Steps -/

theorem bind {c : WordM β} {x : HeapM β} {f : β → WordM α} {g : β → HeapM α} (hc : Follows c x h)
    (hf : ∀ r h', x.runOn h = (.ok r, h') → Follows (f r) (g r) h') : Follows (c >>= f) (x >>= g) h := by
  have hrun : (c >>= f).runOn h = (c.runOn h).bind fun p => ExceptT.bindCont f p.1 p.2 := rfl
  rw [Follows, hrun, hc]
  rcases hx : x.runOn h with ⟨e | r, h'⟩
  · rw [Action.runOn_bind_error hx]
    rfl
  · rw [Action.runOn_bind_ok hx, ← hf r h' hx]
    rfl

/-- A question leaves the heap as it is. -/
theorem ask_bind {c : WordM β} {q : Heap → Except Error β} {f : β → WordM α} {g : β → HeapM α}
    (hc : Follows c (Action.look q) h) (hf : ∀ r, q h = .ok r → Follows (f r) (g r) h) :
    Follows (c >>= f) (Action.look q >>= g) h :=
  bind hc fun r h' hrun => by
    obtain ⟨hr, rfl⟩ := Prod.mk.inj hrun
    exact hf r hr

/-- A question that goes on from the answer to another one. -/
theorem ask {c : WordM β} {q : Heap → Except Error β} {f : β → WordM α} {g : β → Heap → Except Error α}
    (hc : Follows c (Action.look q) h) (hf : ∀ r, q h = .ok r → Follows (f r) (Action.look (g r)) h) :
    Follows (c >>= f) (Action.look fun h => q h >>= fun r => g r h) h :=
  congr (ask_bind hc hf) (Action.runOn_bind_asked rfl g).symm

theorem lift_bind {r : Except Error β} {f : β → WordM α} {g : β → HeapM α}
    (hf : ∀ b, r = .ok b → Follows (f b) (g b) h) :
    Follows (WordM.ofAction (liftM r) >>= f) ((liftM r : HeapM β) >>= g) h :=
  ask_bind (q := fun _ => r) (.ofAction _) hf

/-- What computes a number goes on with that number. -/
theorem value_bind {c : WordM β} {r : β} {f : β → WordM α} (hc : Follows c (Pure.pure r) h) (hf : Follows (f r) x h) :
    Follows (c >>= f) x h :=
  congr (y := x) (bind (g := fun _ => x) hc fun s h' hrun => by cases hrun; exact hf) rfl

theorem number {n : Nat} {o : Option Nat} (ho : o = some n) : Follows (WordM.number o) (Pure.pure n) h := by
  rw [ho]
  rfl

theorem product (hle : a * b ≤ maxWord) : Follows (WordM.product a b) (Pure.pure (a * b)) h := number (if_pos hle)

theorem sum (hle : a + b ≤ maxWord) : Follows (WordM.sum a b) (Pure.pure (a + b)) h := number (if_pos hle)

theorem difference (hle : b ≤ a) : Follows (WordM.difference a b) (Pure.pure (a - b)) h := number (if_pos hle)

/-! ## Branches -/

theorem ite {p : Prop} [Decidable p] {d : WordM α} (hc : p → Follows c x h) (hd : ¬p → Follows d y h) :
    Follows (if p then c else d) (if p then x else y) h := by
  split
  · exact hc ‹p›
  · exact hd ‹¬p›

theorem tryCatch {handler : Error → WordM α} {g : Error → HeapM α} (hc : Follows c x h)
    (hg : ∀ e h', x.runOn h = (.error e, h') → Follows (handler e) (g e) h') :
    Follows (MonadExcept.tryCatch c handler) (MonadExcept.tryCatch x g) h := by
  have hrun : (MonadExcept.tryCatch c handler).runOn h = (c.runOn h).bind fun p =>
      match p.1 with
      | .ok r => some (.ok r, p.2)
      | .error e => (handler e).runOn p.2 := by
    show (c.run.run h).bind _ = (c.run.run h).bind _
    congr 1
    funext ⟨r, h'⟩
    cases r <;> rfl
  rw [Follows, hrun, hc, Action.runOn_tryCatch]
  rcases hx : x.runOn h with ⟨e | r, h'⟩
  · exact hg e h' hx
  · rfl

theorem recover {handle : Error → WordM α} {g : Error → HeapM α} (hc : Follows c x h)
    (hg : ∀ e h', x.runOn h = (.error e, h') → Follows (handle e) (g e) h') :
    Follows (WordM.recover c handle) (x.recover g) h :=
  tryCatch hc fun e h' hrun => ite (fun _ => rfl) fun _ => hg e h' hrun

end Follows

end WordM

end TypedHeap
