import Mathlib.Logic.Function.Iterate
import Mathlib.Order.WellFounded
import TypedHeap.Proofs.Types.Join
import TypedHeap.Proofs.Types.Supertypes

/-!
# Dependencies between types

A type depends on its parameters, on the declared types of its fields and on its supertype. All of them are
registered before it is, so dependencies do not go in circles, and whatever is computed by recursion along them
comes to an end.

* `Descriptor.DependsOn`, `TypeTable.Depends`: what a type is declared with and applied to.
* `Terminates`: a recursion that needs no bound.
* `TypeTable.renderStep`, `chainStep`, `isaStep`: one step of showing a type, of following supertypes and of
  the subtype test, given what the steps below it answer.

Main results: `Ordered.wellFounded_depends`, `terminates_of_measure`, `terminates_render`, `terminates_chain`,
`terminates_isa`.
-/

namespace TypedHeap

/-! ## Dependencies -/

/-- A type is a parameter of an instance, the declared type of one of its fields, or its supertype. -/
def Descriptor.DependsOn (d : Descriptor) (s : TypeRef) : Prop := d.Mentions s ∨ d.supertype = some s

namespace TypeTable

variable {tt : TypeTable} {s t u : TypeRef} {d : Descriptor}

/-- A registered type depends on another one. -/
def Depends (tt : TypeTable) (s t : TypeRef) : Prop := ∃ d, tt.descriptor t = .ok d ∧ d.DependsOn s

/-- What a type depends on has a smaller number. -/
theorem Ordered.lt_of_dependsOn (ho : tt.Ordered) (hr : tt.Rising) (hd : tt.descriptor t = .ok d)
    (hs : d.DependsOn s) : s.index < t.index := by
  rcases hs with hmentions | hsup
  · exact ho.earlier hd hmentions
  · exact hr ⟨d, hd, hsup⟩

theorem Ordered.lt_of_depends (ho : tt.Ordered) (hr : tt.Rising) (h : tt.Depends s t) : s.index < t.index := by
  obtain ⟨d, hd, hs⟩ := h
  exact ho.lt_of_dependsOn hr hd hs

/-- There is no endless chain of dependencies. -/
theorem Ordered.wellFounded_depends (ho : tt.Ordered) (hr : tt.Rising) : WellFounded tt.Depends :=
  Subrelation.wf (ho.lt_of_depends hr) (measure TypeRef.index).wf

/-- No type depends on itself, however indirectly. -/
theorem Ordered.not_depends_self (ho : tt.Ordered) (hr : tt.Rising) (t : TypeRef) :
    ¬Relation.TransGen tt.Depends t t := by
  have hlt {s u : TypeRef} (h : Relation.TransGen tt.Depends s u) : s.index < u.index := by
    induction h with
    | single h => exact ho.lt_of_depends hr h
    | tail _ h ih => exact ih.trans (ho.lt_of_depends hr h)
  exact fun h => (hlt h).false

end TypeTable

/-! ## Recursions -/

section Recursion

variable {α β : Type} {F : (α → β) → α → β} {a : α}

/-- The recursion with step `F` answers `b`: after so many steps no call is left, and it does not matter what
the calls below them would answer. -/
def Terminates (F : (α → β) → α → β) (a : α) (b : β) : Prop := ∃ n, ∀ g, F^[n] g a = b

/-- A recursion with a bound takes as many steps as the bound says. -/
theorem eq_iterate_of_succ {W : Nat → α → β} (h : ∀ n, W (n + 1) = F (W n)) (n : Nat) : W n = F^[n] (W 0) := by
  induction n with
  | zero => rfl
  | succ n ih => rw [Function.iterate_succ_apply', ← ih, h]

/-- If each step calls only for smaller arguments, the size of an argument bounds the number of steps. -/
theorem iterate_eq_of_measure (size : α → Nat)
    (h : ∀ a f g, (∀ b, size b < size a → f b = g b) → F f a = F g a) {n : Nat} (hn : size a < n)
    (f g : α → β) : F^[n] f a = F^[n] g a := by
  induction n generalizing a with
  | zero => exact absurd hn (Nat.not_lt_zero _)
  | succ n ih =>
    rw [Function.iterate_succ_apply', Function.iterate_succ_apply']
    exact h a _ _ fun b hb => ih (Nat.lt_of_lt_of_le hb (Nat.le_of_lt_succ hn))

theorem terminates_of_measure (size : α → Nat)
    (h : ∀ a f g, (∀ b, size b < size a → f b = g b) → F f a = F g a) {n : Nat} (hn : size a < n)
    (f : α → β) : Terminates F a (F^[n] f a) :=
  ⟨n, fun g => iterate_eq_of_measure size h hn g f⟩

/-- A recursion on types that calls for types before them ends within as many steps as the number of the type. -/
theorem TypeRef.terminates {F : (TypeRef → β) → TypeRef → β}
    (h : ∀ t f g, (∀ s : TypeRef, s.index < t.index → f s = g s) → F f t = F g t) (t : TypeRef) (f : TypeRef → β) :
    Terminates F t (F^[t.index] f t) := by
  have hpos := t.pos
  refine terminates_of_measure (fun t => t.index - 1) (fun t f g hfg => h t f g fun s hs => hfg s ?_) (by omega) f
  have := s.pos
  omega

end Recursion

namespace TypeTable

variable {tt : TypeTable} {s t u declared : TypeRef} {d : Descriptor}

/-! ## Showing types -/

/-- A parameter as messages show it, given how types are shown. -/
def paramText (text : TypeRef → Except Error String) : TypeParam → Except Error String
  | .type s => text s
  | .int n => .ok (toString n.toInt)
  | .symbol s => .ok s.debug
  | .bool b => .ok (toString b)

/-- A type as messages show it, given how the types among its parameters are shown. -/
def renderStep (tt : TypeTable) (text : TypeRef → Except Error String) (t : TypeRef) : Except Error String := do
  let d ← tt.descriptor t
  if d.params.isEmpty && d.kind != .union then
    return d.name.text
  else
    let parts ← d.params.mapM (paramText text)
    return d.name.text ++ "\x7b" ++ ", ".intercalate parts ++ "\x7d"

theorem renderWithin_eq_iterate (tt : TypeTable) (n : Nat) :
    tt.renderWithin n = tt.renderStep^[n] (tt.renderWithin 0) :=
  eq_iterate_of_succ (fun _ => rfl) n

/-- To show a type, only types that come before it are shown. -/
theorem renderStep_congr (ho : tt.Ordered) {f g : TypeRef → Except Error String}
    (h : ∀ s, s.index < t.index → f s = g s) : tt.renderStep f t = tt.renderStep g t := by
  unfold renderStep
  cases hd : tt.descriptor t with
  | error e => rfl
  | ok d =>
    have hparts : d.params.mapM (paramText f) = d.params.mapM (paramText g) := by
      refine mapM_congr fun p hp => ?_
      cases p with
      | type s => exact h s (ho.earlier hd (Descriptor.mentions_of_mem hp))
      | _ => rfl
    simp only [bind, Except.bind, hparts]

theorem terminates_render (ho : tt.Ordered) (t : TypeRef) : Terminates tt.renderStep t (tt.render t) := by
  rw [render, renderWithin_eq_iterate]
  exact TypeRef.terminates (fun _ _ _ => renderStep_congr ho) t _

/-! ## Following supertypes -/

/-- Whether a chain of declared supertypes meets a type, given the answer for what comes behind its first link. -/
def chainStep (tt : TypeTable) (declared : TypeRef) (rest : Option TypeRef → Except Error Bool) :
    Option TypeRef → Except Error Bool
  | none => .ok false
  | some s => do
    if s = declared then return true
    let d ← tt.descriptor s
    rest d.supertype

/-- How far a chain may still go. -/
def chainLength : Option TypeRef → Nat
  | none => 0
  | some s => s.index

theorem chainMeets_eq_iterate (tt : TypeTable) (declared : TypeRef) (n : Nat) :
    tt.chainMeets declared n = (tt.chainStep declared)^[n] (tt.chainMeets declared 0) :=
  eq_iterate_of_succ (fun _ => funext fun cur => by cases cur <;> rfl) n

theorem Rising.chainLength_lt (hr : tt.Rising) (hd : tt.descriptor s = .ok d) :
    chainLength d.supertype < s.index := by
  cases hsup : d.supertype with
  | none => exact s.pos
  | some u => exact hr ⟨d, hd, hsup⟩

/-- The loop along a chain ends within as many links as the number of the type says. -/
theorem terminates_chain (hr : tt.Rising) (hd : tt.descriptor t = .ok d) (declared : TypeRef) :
    Terminates (tt.chainStep declared) d.supertype (tt.chainMeets declared t.index d.supertype) := by
  rw [chainMeets_eq_iterate]
  refine terminates_of_measure chainLength (fun cur f g h => ?_) (hr.chainLength_lt hd) _
  cases cur with
  | none => rfl
  | some s =>
    have hrest : (tt.descriptor s >>= fun d => f d.supertype) = tt.descriptor s >>= fun d => g d.supertype := by
      cases hs : tt.descriptor s with
      | error e => rfl
      | ok e => exact h _ (hr.chainLength_lt hs)
    exact congrArg (fun r => if s = declared then pure true else r) hrest

/-! ## The subtype test -/

/-- The subtype test of a pair, given the answers for pairs with a member in place of a union. -/
def isaStep (tt : TypeTable) (below : TypeRef × TypeRef → Except Error Bool) :
    TypeRef × TypeRef → Except Error Bool
  | (t, declared) => do
    if t = declared ∨ declared = Builtin.any then return true
    let sub ← tt.descriptor t
    if sub.kind = .union then
      return ← sub.memberTypes.allM fun m => below (m, declared)
    let sup ← tt.descriptor declared
    if sup.kind = .union then
      return ← sup.memberTypes.anyM fun m => below (t, m)
    tt.chainMeets declared t.index sub.supertype

theorem isaWithin_eq_iterate (tt : TypeTable) (n : Nat) :
    Function.uncurry (tt.isaWithin n) = tt.isaStep^[n] (Function.uncurry (tt.isaWithin 0)) :=
  eq_iterate_of_succ (W := fun n => Function.uncurry (tt.isaWithin n)) (fun _ => rfl) n

theorem allM_congr {α : Type} {p q : α → Except Error Bool} {l : List α} (h : ∀ a ∈ l, p a = q a) :
    l.allM p = l.allM q := by
  induction l with
  | nil => rfl
  | cons a l ih =>
    rw [List.forall_mem_cons] at h
    rw [List.allM, List.allM, h.1, ih h.2]

theorem anyM_congr {α : Type} {p q : α → Except Error Bool} {l : List α} (h : ∀ a ∈ l, p a = q a) :
    l.anyM p = l.anyM q := by
  induction l with
  | nil => rfl
  | cons a l ih =>
    rw [List.forall_mem_cons] at h
    rw [List.anyM, List.anyM, h.1, ih h.2]

/-- Opening a union on either side makes the sum of the two numbers smaller. -/
theorem isaStep_congr (ho : tt.Ordered) {f g : TypeRef × TypeRef → Except Error Bool}
    (h : ∀ s u : TypeRef, s.index + u.index < t.index + declared.index → f (s, u) = g (s, u)) :
    tt.isaStep f (t, declared) = tt.isaStep g (t, declared) := by
  have hmember {t : TypeRef} {d : Descriptor} (hd : tt.descriptor t = .ok d) :
      ∀ m ∈ d.memberTypes, m.index < t.index := fun m hm => ho.earlier hd (.inl hm)
  refine congrArg (fun r => if t = declared ∨ declared = Builtin.any then pure true else r) ?_
  cases hd : tt.descriptor t with
  | error e => rfl
  | ok sub =>
    have hall : (sub.memberTypes.allM fun m => f (m, declared)) = sub.memberTypes.allM fun m => g (m, declared) :=
      allM_congr fun m hm => h m declared (Nat.add_lt_add_right (hmember hd m hm) _)
    have hany {sup : Descriptor} (he : tt.descriptor declared = .ok sup) :
        (sup.memberTypes.anyM fun m => f (t, m)) = sup.memberTypes.anyM fun m => g (t, m) :=
      anyM_congr fun m hm => h t m (Nat.add_lt_add_left (hmember he m hm) _)
    cases he : tt.descriptor declared with
    | error e => simp only [bind, Except.bind, hall]
    | ok sup => simp only [bind, Except.bind, hall, hany he]

theorem terminates_isa (ho : tt.Ordered) (t declared : TypeRef) :
    Terminates tt.isaStep (t, declared) (tt.isa t declared) := by
  have hpos := t.pos
  have hiterate := congrFun (tt.isaWithin_eq_iterate (t.index + declared.index)) (t, declared)
  rw [Function.uncurry_apply_pair] at hiterate
  rw [isa, hiterate]
  have hlt : t.index + declared.index - 1 < t.index + declared.index := by omega
  refine terminates_of_measure (fun p => p.1.index + p.2.index - 1) (fun p f g h => ?_) hlt _
  refine isaStep_congr ho fun s u hlt => h (s, u) ?_
  have := s.pos
  show s.index + u.index - 1 < p.1.index + p.2.index - 1
  omega

end TypeTable

end TypedHeap
