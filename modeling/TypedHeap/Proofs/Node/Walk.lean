import TypedHeap.Proofs.Array.Contents
import TypedHeap.Proofs.Heap.Nesting
import TypedHeap.Proofs.Heap.Questions
import TypedHeap.Proofs.Node.Expr
import TypedHeap.Proofs.Node.Preorder

/-!
# What a walk visits

A walk keeps all that is still to be visited on one stack and notices what it has visited before only
when it gets there. This is the order of the recursive traversal of an expression and its arguments, up to
the first expression that does not have all of its arguments.

* `Nodes.IsExpr`, `IsArgument`, `arguments`: expressions and what their arguments are.
* `Nodes.HasArguments`, `Complete`: all slots for arguments are filled.

Main results: `runOn_after`, `after_fails`, `walkFrom_ends`.
-/

namespace TypedHeap.Nodes

open TypedHeap.Action (Meets Fails runOn_bind_ok runOn_bind_error runOn_look runOn_pure runOn_throw)
open Heap ArrayObject

variable {h h' : Heap} {ts : NodeTypes} {e v x args : Value} {i n count : Nat} {k : Option NodeKind}
  {ds : List (Option Datum)} {xs rest seen todo order : List Value}

/-! ## Arguments -/

/-- An object is an expression. -/
def IsExpr (ts : NodeTypes) (h : Heap) (e : Value) : Prop := kindOf ts h e = .ok (some .expr)

/-- `x` is an argument of the expression `e`. -/
def IsArgument (ts : NodeTypes) (h : Heap) (e x : Value) : Prop :=
  ∃ i, ((argument ts e i).runOn h).1 = .ok x

/-- The arguments of an expression from left to right, as far as they are defined. What is no expression
has none. -/
def arguments (ts : NodeTypes) (h : Heap) (e : Value) : List Value :=
  match ((argumentCount ts e).runOn h).1 with
  | .ok n => (List.range n).filterMap fun i => ((argument ts e i).runOn h).1.toOption
  | .error _ => []

/-- The vector of an expression lists the values `xs`, so that no argument is undefined. -/
def HasArguments (ts : NodeTypes) (h : Heap) (e : Value) (xs : List Value) : Prop :=
  ∃ args, ArgumentsOf ts h e args ∧ Lists h args (xs.map fun x => some (.ref x))

/-- If an object is an expression, then it has all of its arguments. -/
def Complete (ts : NodeTypes) (h : Heap) (e : Value) : Prop := IsExpr ts h e → ∃ xs, HasArguments ts h e xs

theorem expectKind_eq_ok {k : NodeKind} : expectKind ts k h v = .ok () ↔ kindOf ts h v = .ok (some k) := by
  unfold expectKind
  cases kindOf ts h v with
  | error e => exact ⟨nofun, nofun⟩
  | ok k' =>
    refine (?_ : (if k' ≠ some k then _ else _) = Except.ok () ↔ _)
    by_cases hk : k' = some k
    · rw [if_neg (not_not.2 hk), hk]
      exact ⟨fun _ => rfl, fun _ => rfl⟩
    · rw [if_pos hk]
      refine ⟨fun hok => ?_, fun heq => absurd (Except.ok.inj heq) hk⟩
      obtain ⟨_, -, hok⟩ := bind_eq_ok.1 hok
      obtain ⟨_, -, hok⟩ := bind_eq_ok.1 hok
      cases hok

/-- The vector of an expression was found without a change. -/
theorem runOn_argumentVector (hs : h.Sound) (hargs : ArgumentsOf ts h e args) :
    IsExpr ts h e ∧ (argumentVector ts e).runOn h = (.ok args, h) := by
  unfold ArgumentsOf argumentVector at hargs
  unfold argumentVector
  cases hkind : expectKind ts .expr h e with
  | error err =>
    rw [runOn_bind_error (by rw [runOn_look, hkind])] at hargs
    cases hargs
  | ok _ =>
    have hlook : (Action.look (expectKind ts .expr · e)).runOn h = (.ok ⟨⟩, h) := by rw [runOn_look, hkind]
    rw [runOn_bind_ok hlook] at hargs ⊢
    refine ⟨expectKind_eq_ok.1 hkind, ?_⟩
    rcases hread : (Record.read e argumentsField).runOn h with ⟨err | d, h'⟩
    · rw [runOn_bind_error hread] at hargs
      cases hargs
    · obtain ⟨d', hsame⟩ | ⟨err, h'', herror, -⟩ := Record.read_cases hs e argumentsField
      swap
      · cases hread.symm.trans herror
      cases hread.symm.trans hsame
      rw [runOn_bind_ok hsame] at hargs ⊢
      cases d with
      | bits t bs => cases hargs
      | ref x =>
        cases hargs
        rfl

theorem argumentsOf_of_count (hs : h.Sound) (hcount : ((argumentCount ts e).runOn h).1 = .ok n) :
    ∃ args ds, ArgumentsOf ts h e args ∧ Lists h args ds ∧ ds.length = n := by
  unfold argumentCount at hcount
  rcases hvector : (argumentVector ts e).runOn h with ⟨err | args, h'⟩
  · rw [runOn_bind_error hvector] at hcount
    cases hcount
  · have hargs : ArgumentsOf ts h e args := by rw [ArgumentsOf, hvector]
    rw [runOn_bind_ok (runOn_argumentVector hs hargs).2, runOn_look] at hcount
    obtain ⟨f, hf, rfl⟩ := (bind_eq_ok.trans (exists_congr fun _ => and_congr_right fun _ => pure_eq_ok)).1 hcount
    obtain ⟨ds, hds⟩ := exists_lists hs (hs.info_iff.1 hf)
    obtain ⟨g, hg, hlength⟩ :=
      (bind_eq_ok.trans (exists_congr fun _ => and_congr_right fun _ => pure_eq_ok)).1 hds.length
    cases hf.symm.trans hg
    exact ⟨args, ds, hargs, hds, hlength.symm⟩

section Vector

variable (hs : h.Sound) (hargs : ArgumentsOf ts h e args) (hl : Lists h args ds)

include hs hargs hl

theorem runOn_argumentCount : (argumentCount ts e).runOn h = (.ok ds.length, h) := by
  unfold argumentCount
  rw [runOn_bind_ok (runOn_argumentVector hs hargs).2, runOn_look, hl.length]

theorem runOn_vectorWith (i : Nat) : (vectorWith ts e i).runOn h =
    (if i < ds.length then .ok args else .error (.indexOutOfRange .argument i ds.length), h) := by
  have hlength : (Action.look (ArrayObject.length · args)).runOn h = (.ok ds.length, h) := by
    rw [runOn_look, hl.length]
  unfold vectorWith
  rw [runOn_bind_ok (runOn_argumentVector hs hargs).2, runOn_bind_ok hlength]
  rcases Nat.lt_or_ge i ds.length with hi | hi
  · rw [if_pos hi, if_neg (Nat.not_le.2 hi)]
    rfl
  · rw [if_neg (Nat.not_lt.2 hi), if_pos hi]
    rfl

/-- Asking for an argument gives the reference in its slot, if there is one. -/
theorem runOn_argument (i : Nat) :
    ∃ r, (argument ts e i).runOn h = (r, h) ∧ r.toOption = (ds[i]?).join.bind Datum.ref? := by
  have hvector := runOn_vectorWith hs hargs hl i
  unfold argument
  rcases Nat.lt_or_ge i ds.length with hi | hi
  · have hget := hl.get i
    rw [answer, List.getElem?_eq_getElem hi] at hget
    rw [if_pos hi] at hvector
    rw [List.getElem?_eq_getElem hi, runOn_bind_ok hvector]
    cases hd : ds[i] with
    | none =>
      rw [hd] at hget
      exact ⟨_, runOn_bind_error hget, rfl⟩
    | some d =>
      rw [hd] at hget
      rw [runOn_bind_ok hget]
      cases d with
      | bits t bs => exact ⟨_, runOn_throw _ h, rfl⟩
      | ref x => exact ⟨_, runOn_pure x h, rfl⟩
  · rw [if_neg (Nat.not_lt.2 hi)] at hvector
    rw [List.getElem?_eq_none hi, runOn_bind_error hvector]
    exact ⟨_, rfl, rfl⟩

theorem arguments_eq : arguments ts h e = ds.filterMap (·.bind Datum.ref?) := by
  have hall : ∀ i, ((argument ts e i).runOn h).1.toOption = (ds[i]?).join.bind Datum.ref? := fun i => by
    obtain ⟨r, hrun, hr⟩ := runOn_argument hs hargs hl i
    rw [hrun, hr]
  unfold arguments
  rw [runOn_argumentCount hs hargs hl]
  simp only [hall]
  clear hl hall
  induction ds with
  | nil => rfl
  | cons d ds ih =>
    rw [List.length_cons, List.range_succ_eq_map, List.filterMap_cons, List.filterMap_map, List.filterMap_cons]
    simp only [Function.comp_def, List.getElem?_cons_zero, List.getElem?_cons_succ, Option.join_some, ih]

/-- Arguments are objects. -/
theorem live_of_mem (hx : x ∈ arguments ts h e) : h.Live x := by
  rw [arguments_eq hs hargs hl, List.mem_filterMap] at hx
  obtain ⟨d, hd, hx⟩ := hx
  obtain ⟨d, rfl, hx⟩ := Option.bind_eq_some_iff.1 hx
  exact hl.live hs hd hx

end Vector

theorem exists_lists_of_mem (hs : h.Sound) (hx : x ∈ arguments ts h e) :
    ∃ args ds, ArgumentsOf ts h e args ∧ Lists h args ds := by
  unfold arguments at hx
  split at hx
  · rename_i n hcount
    obtain ⟨args, ds, hargs, hl, -⟩ := argumentsOf_of_count hs hcount
    exact ⟨args, ds, hargs, hl⟩
  · cases hx

theorem live_of_mem_arguments (hs : h.Sound) (hx : x ∈ arguments ts h e) : h.Live x := by
  obtain ⟨args, ds, hargs, hl⟩ := exists_lists_of_mem hs hx
  exact live_of_mem hs hargs hl hx

/-- The arguments are the values that can be asked for. -/
theorem mem_arguments (hs : h.Sound) : x ∈ arguments ts h e ↔ IsArgument ts h e x := by
  constructor
  · intro hx
    unfold arguments at hx
    split at hx
    · obtain ⟨i, -, hi⟩ := List.mem_filterMap.1 hx
      refine ⟨i, ?_⟩
      generalize ((argument ts e i).runOn h).1 = r at hi
      cases r with
      | error err => cases hi
      | ok y =>
        cases hi
        rfl
    · cases hx
  · rintro ⟨i, hi⟩
    have hcount : ∃ n, ((argumentCount ts e).runOn h).1 = .ok n := by
      unfold argument vectorWith at hi
      rcases hvector : (argumentVector ts e).runOn h with ⟨err | args, h'⟩
      · rw [runOn_bind_error (runOn_bind_error hvector)] at hi
        cases hi
      · unfold argumentCount
        cases hlength : ArrayObject.length h' args with
        | error err =>
          rw [runOn_bind_error (by rw [runOn_bind_ok hvector, runOn_bind_error (by rw [runOn_look, hlength])])] at hi
          cases hi
        | ok n =>
          rw [runOn_bind_ok hvector, runOn_look, hlength]
          exact ⟨n, rfl⟩
    obtain ⟨n, hn⟩ := hcount
    obtain ⟨args, ds, hargs, hl, -⟩ := argumentsOf_of_count hs hn
    obtain ⟨r, hrun, hr⟩ := runOn_argument hs hargs hl i
    rw [hrun] at hi
    rw [show r = .ok x from hi] at hr
    rw [arguments_eq hs hargs hl, List.mem_filterMap]
    obtain ⟨d, hd, hx⟩ := Option.bind_eq_some_iff.1 hr.symm
    exact ⟨some d, List.mem_of_getElem? (Option.join_eq_some_iff.1 hd), hx⟩

/-! ## Complete expressions -/

theorem arguments_of_hasArguments (hs : h.Sound) (hx : HasArguments ts h e xs) : arguments ts h e = xs := by
  obtain ⟨args, hargs, hl⟩ := hx
  rw [arguments_eq hs hargs hl, List.filterMap_map]
  exact List.filterMap_some

/-- Slots that all hold references list the values that these refer to. -/
theorem exists_refs (hall : ∀ d ∈ ds, (d.bind Datum.ref?).isSome = true) :
    ∃ xs : List Value, ds = xs.map fun x => some (.ref x) := by
  induction ds with
  | nil => exact ⟨[], rfl⟩
  | cons d ds ih =>
    obtain ⟨hd, hrest⟩ := List.forall_mem_cons.1 hall
    obtain ⟨xs, rfl⟩ := ih hrest
    obtain _ | (x | ⟨t, bs⟩) := d
    · cases hd
    · exact ⟨x :: xs, rfl⟩
    · cases hd

/-- The vector of an expression without all of its arguments has a slot without a reference. -/
theorem exists_undefined (hargs : ArgumentsOf ts h e args) (hl : Lists h args ds)
    (hno : ∀ xs, ¬HasArguments ts h e xs) : ∃ i, i < ds.length ∧ (ds[i]?).join.bind Datum.ref? = none := by
  by_contra hall
  have hrefs : ∀ d ∈ ds, (d.bind Datum.ref?).isSome = true := by
    intro d hd
    obtain ⟨i, hi, rfl⟩ := List.getElem_of_mem hd
    by_contra hnone
    refine hall ⟨i, hi, ?_⟩
    rw [List.getElem?_eq_getElem hi]
    exact Option.not_isSome_iff_eq_none.1 hnone
  obtain ⟨xs, rfl⟩ := exists_refs hrefs
  exact hno xs ⟨args, hargs, hl⟩

/-! ## One step of a walk -/

section Vector

variable (hs : h.Sound) (hargs : ArgumentsOf ts h e args)

include hs hargs

theorem runOn_argumentsBefore (hl : Lists h args (xs.map fun x => some (.ref x))) (hcount : count ≤ xs.length)
    (rest : List Value) : (argumentsBefore ts e count rest).runOn h = (.ok (xs.take count ++ rest), h) := by
  induction count generalizing rest with
  | zero => rfl
  | succ count ih =>
    obtain ⟨r, hrun, hr⟩ := runOn_argument hs hargs hl count
    rw [List.getElem?_map, List.getElem?_eq_getElem hcount] at hr
    have hr : r = .ok xs[count] := by
      cases r <;> cases hr
      rfl
    rw [hr] at hrun
    unfold argumentsBefore
    rw [runOn_bind_ok hrun, ih (Nat.le_of_succ_le hcount), List.take_succ_eq_append_getElem hcount, List.append_assoc]
    rfl

/-- The last undefined argument stops the walk. -/
theorem runOn_argumentsBefore_error (hl : Lists h args ds) (hi : i < count)
    (hnone : (ds[i]?).join.bind Datum.ref? = none) (rest : List Value) :
    ∃ err, (argumentsBefore ts e count rest).runOn h = (.error err, h) := by
  induction count generalizing rest with
  | zero => exact absurd hi (Nat.not_lt_zero i)
  | succ count ih =>
    obtain ⟨r, hrun, hr⟩ := runOn_argument hs hargs hl count
    unfold argumentsBefore
    cases r with
    | error err => exact ⟨err, runOn_bind_error hrun⟩
    | ok x =>
      rw [runOn_bind_ok hrun]
      refine ih (Nat.lt_of_le_of_ne (Nat.le_of_lt_succ hi) fun heq => ?_) (x :: rest)
      rw [← heq, hnone] at hr
      cases hr

end Vector

/-- A complete expression puts its arguments in front of what was to be visited. Any other object puts
nothing there. -/
theorem runOn_after (hs : h.Sound) (hv : h.Live v) (hc : Complete ts h v) (rest : List Value) :
    (after ts v rest).runOn h = (.ok (arguments ts h v ++ rest), h) := by
  obtain ⟨t, ht⟩ := hs.exists_typeOf hv
  have hkind : kindOf ts h v = .ok (ts.kindOf? t) := bind_eq_ok.2 ⟨t, ht, rfl⟩
  have hlook : (Action.look (kindOf ts · v)).runOn h = (.ok (ts.kindOf? t), h) := by rw [runOn_look, hkind]
  unfold after
  rw [runOn_bind_ok hlook]
  by_cases hexpr : ts.kindOf? t = some .expr
  · obtain ⟨xs, hx⟩ := hc (hkind.trans (congrArg Except.ok hexpr))
    rw [arguments_of_hasArguments hs hx]
    obtain ⟨args, hargs, hl⟩ := hx
    have hcount := runOn_argumentCount hs hargs hl
    rw [List.length_map] at hcount
    rw [hexpr]
    refine (runOn_bind_ok hcount).trans ?_
    rw [runOn_argumentsBefore hs hargs hl (Nat.le_refl _), List.take_length]
  · have hnone : arguments ts h v = [] := List.eq_nil_iff_forall_not_mem.2 fun x hx => by
      obtain ⟨args, ds, hargs, -⟩ := exists_lists_of_mem hs hx
      have hexpr' := (runOn_argumentVector hs hargs).1
      rw [IsExpr, hkind] at hexpr'
      exact hexpr (Except.ok.inj hexpr')
    rw [hnone]
    split
    · rename_i heq
      exact absurd heq hexpr
    · rfl

/-- An expression without all of its arguments stops the walk. -/
theorem runOn_after_error (hs : h.Sound) (hc : ¬Complete ts h v) (rest : List Value) :
    ∃ err, ((after ts v rest).runOn h).1 = .error err := by
  obtain ⟨hexpr, hno⟩ := Classical.not_imp.1 hc
  have hlook : (Action.look (kindOf ts · v)).runOn h = (.ok (some .expr), h) := by rw [runOn_look, hexpr]
  unfold after
  rw [runOn_bind_ok hlook]
  rcases hcount : (argumentCount ts v).runOn h with ⟨err | n, h'⟩
  · exact ⟨err, by rw [runOn_bind_error hcount]⟩
  · obtain ⟨args, ds, hargs, hl, rfl⟩ := argumentsOf_of_count hs (by rw [hcount])
    obtain ⟨i, hi, hnone⟩ := exists_undefined hargs hl (not_exists.1 hno)
    obtain ⟨err, herr⟩ := runOn_argumentsBefore_error hs hargs hl hi hnone rest
    exact ⟨err, by rw [runOn_bind_ok (runOn_argumentCount hs hargs hl), herr]⟩

/-! ## Failures -/

/-- Something other than a complaint about what the caller asked for. -/
def NoComplaint (err : Error) : Prop := ∀ what, err ≠ .invalidArgument what

theorem argumentVector_fails (hs : h.Sound) (hexpr : IsExpr ts h e) :
    Fails (argumentVector ts e) h NoComplaint := by
  unfold argumentVector
  refine Fails.look_bind (.of_eq_ok (expectKind_eq_ok.2 hexpr)) fun _ _ => Fails.bind_ran ?_ fun d h' _ => ?_
  · obtain ⟨d, hrun⟩ | ⟨err, h', hrun, rfl | ⟨n, rfl⟩ | ⟨what, rfl⟩⟩ := Record.read_cases hs e argumentsField
    · exact .of_runOn hrun .ok
    all_goals exact .of_runOn hrun (.error fun _ heq => by cases heq)
  · split
    · exact .pure
    · exact .throw fun _ heq => by cases heq

theorem length_raises (hs : h.Sound) (a : Value) : Raises (ArrayObject.length h a) NoComplaint := by
  unfold ArrayObject.length
  refine Raises.bind ((hs.info_raises a).mono fun err herr => ?_) fun _ _ => .pure
  obtain rfl | ⟨_, rfl⟩ | ⟨_, _, rfl⟩ | ⟨rfl, -⟩ := herr <;> (intro _ heq; cases heq)

theorem argument_fails (hs : h.Sound) (hargs : ArgumentsOf ts h e args) (hl : Lists h args ds) (i : Nat) :
    Fails (argument ts e i) h NoComplaint := by
  unfold argument
  refine Fails.bind_ran (.of_runOn (runOn_vectorWith hs hargs hl i) ?_) fun args' h' hrun => ?_
  · exact Raises.ite (fun _ => .ok) fun _ => .error fun _ heq => by cases heq
  · rw [runOn_vectorWith hs hargs hl i] at hrun
    rcases Nat.lt_or_ge i ds.length with hi | hi
    · rw [if_pos hi] at hrun
      cases hrun
      refine Fails.bind_ran (.of_runOn (hl.get i) ?_) fun d _ _ => ?_
      · rw [answer, List.getElem?_eq_getElem hi]
        generalize ds[i] = d
        cases d with
        | none => exact .error fun _ heq => by cases heq
        | some d => exact .ok
      · split
        · exact .pure
        · exact .throw fun _ heq => by cases heq
    · rw [if_neg (Nat.not_lt.2 hi)] at hrun
      cases hrun

theorem argumentsBefore_fails (hs : h.Sound) (hargs : ArgumentsOf ts h e args) (hl : Lists h args ds)
    (count : Nat) (rest : List Value) : Fails (argumentsBefore ts e count rest) h NoComplaint := by
  induction count generalizing rest with
  | zero => exact .pure
  | succ count ih =>
    refine Fails.bind_ran (argument_fails hs hargs hl count) fun x h' hrun => ?_
    obtain ⟨r, hrun', -⟩ := runOn_argument hs hargs hl count
    cases hrun.symm.trans hrun'
    exact ih (x :: rest)

theorem after_fails (hs : h.Sound) (hv : h.Live v) (rest : List Value) :
    Fails (after ts v rest) h NoComplaint := by
  obtain ⟨t, ht⟩ := hs.exists_typeOf hv
  unfold after
  refine Fails.look_bind (.of_eq_ok (bind_eq_ok.2 ⟨t, ht, rfl⟩)) fun k hk => ?_
  split
  · have hcount : Fails (argumentCount ts v) h NoComplaint := by
      unfold argumentCount
      refine Fails.bind_ran (argumentVector_fails hs hk) fun args h' hrun => .look ?_
      have hargs : ArgumentsOf ts h v args := by rw [ArgumentsOf, hrun]
      cases hrun.symm.trans (runOn_argumentVector hs hargs).2
      exact length_raises hs args
    refine Fails.bind_ran hcount fun n h' hrun => ?_
    obtain ⟨args, ds, hargs, hl, -⟩ := argumentsOf_of_count hs (by rw [hrun])
    cases hrun.symm.trans (runOn_argumentCount hs hargs hl)
    exact argumentsBefore_fails hs hargs hl _ rest
  · exact .pure

/-! ## Walks -/

/-- A walk goes on behind the next object to visit. -/
theorem runOn_walkFrom_ok {next : List Value} (hnext : todo.dropWhile (seen.contains ·) = v :: rest)
    (hafter : (after ts v rest).runOn h = (.ok next, h')) :
    (walkFrom ts (n + 1) seen todo).runOn h = (walkFrom ts n (v :: seen) next).runOn h' := by
  rw [walkFrom.eq_def]
  dsimp only
  rw [hnext]
  exact runOn_bind_ok (by rw [Action.runOn_attempt, hafter])

/-- A walk stops at an object that does not tell what lies below it. -/
theorem runOn_walkFrom_error {err : Error} (hnext : todo.dropWhile (seen.contains ·) = v :: rest)
    (hafter : (after ts v rest).runOn h = (.error err, h')) :
    (walkFrom ts (n + 1) seen todo).runOn h = (.ok ⟨(v :: seen).reverse, .error err⟩, h') := by
  rw [walkFrom.eq_def]
  dsimp only
  rw [hnext]
  exact runOn_bind_ok (by rw [Action.runOn_attempt, hafter])

/-- A walk with as many steps as there are objects to visit ends in the same way however many more it has. It
visits all of them and tells how many there are, or it visits some of the first ones and fails. -/
theorem walkFrom_ends (hs : h.Sound) (hp : Preorder (arguments ts h) seen todo order)
    (hlive : ∀ v ∈ order, h.Live v) :
    ∃ w, (∀ n, order.length ≤ n → ((walkFrom ts n seen todo).runOn h).1 = .ok w) ∧
      ((∀ v ∈ order, Complete ts h v) → w = ⟨seen.reverse ++ order, .ok (seen.length + order.length)⟩) ∧
      ((∃ v ∈ order, ¬Complete ts h v) →
        w.visited <+: seen.reverse ++ order ∧ ∃ err, w.outcome = .error err ∧ NoComplaint err) := by
  induction order generalizing seen todo with
  | nil =>
    obtain ⟨hnone, -⟩ | ⟨_, _, _, -, heq, -⟩ := hp.uncons
    · refine ⟨⟨seen.reverse, .ok seen.length⟩, fun n _ => ?_, fun _ => by rw [List.append_nil]; rfl, ?_⟩
      · rw [walkFrom.eq_def]
        dsimp only
        generalize todo.dropWhile (seen.contains ·) = pending at hnone
        subst hnone
        rfl
      · rintro ⟨v, hmem, -⟩
        exact absurd hmem List.not_mem_nil
    · cases heq
  | cons v later ih =>
    obtain ⟨-, heq⟩ | ⟨_, rest, _, hnext, heq, hp⟩ := hp.uncons
    · cases heq
    cases heq
    obtain ⟨hv, hlater⟩ := List.forall_mem_cons.1 hlive
    have hshift : (v :: seen).reverse ++ later = seen.reverse ++ v :: later := by
      rw [List.reverse_cons, List.append_assoc, List.singleton_append]
    by_cases hc : Complete ts h v
    · obtain ⟨w, hrun, hall, hsome⟩ := ih hp hlater
      refine ⟨w, fun n hn => ?_, fun hcs => ?_, fun hbad => ?_⟩
      · obtain ⟨m, rfl⟩ := Nat.exists_eq_add_of_lt hn
        rw [runOn_walkFrom_ok hnext (runOn_after hs hv hc rest)]
        exact hrun _ (Nat.le_add_right _ _)
      · rw [hall (List.forall_mem_cons.1 hcs).2, hshift, List.length_cons, List.length_cons, Nat.add_right_comm,
          Nat.add_assoc]
      · rw [← hshift]
        refine hsome ?_
        obtain ⟨u, hu, hno⟩ := hbad
        rcases List.mem_cons.1 hu with rfl | hu
        · exact absurd hc hno
        · exact ⟨u, hu, hno⟩
    · obtain ⟨err, herr⟩ := runOn_after_error hs hc rest
      rcases hrun : (after ts v rest).runOn h with ⟨r, h'⟩
      rw [hrun] at herr
      cases herr
      refine ⟨⟨(v :: seen).reverse, .error err⟩, fun n hn => ?_, fun hcs => ?_, fun _ => ⟨?_, err, rfl, ?_⟩⟩
      · obtain ⟨m, rfl⟩ := Nat.exists_eq_add_of_lt hn
        rw [runOn_walkFrom_error hnext hrun]
      · exact absurd (List.forall_mem_cons.1 hcs).1 hc
      · rw [← hshift]
        exact List.prefix_append _ _
      · exact after_fails hs hv rest err (by rw [hrun])

end TypedHeap.Nodes
