import TypedHeap.Proofs.Heap.Modules
import TypedHeap.Proofs.Heap.Values
import TypedHeap.Proofs.Object.ScalarFields

/-!
# Paths of modules

The path of a module spells the names of the modules that it lies in, from the root down. The path is found by a walk
up to the root, and so are the modules that another one must not become a parent of.

* `ModuleObject.Tells`, `ModuleObject.Lineage`: the name and the parent of a module, and the names from a root down
  to it.
* `ModuleObject.dotted`: how names are written as a path.

Main results: `Lineage.runOn_path`, `path_eq_ok`, `runOn_checkParent`.
-/

namespace TypedHeap

open TypedHeap.Action (runOn_bind_ok runOn_bind_error runOn_bind_eq_ok runOn_look)
open Heap Relation

variable {h h' : Heap} {m p r x target : Value} {n : Symbol} {ns above below out : List Symbol}
  {text : String} {k steps : Nat} {S : Value → Nat → Prop}

namespace ModuleObject

/-! ## What modules tell -/

/-- A module tells its name and its parent. -/
structure Tells (h : Heap) (m : Value) (n : Symbol) (p : Value) : Prop where
  name : ((ModuleObject.name m).runOn h).1 = .ok n
  parent : ((ModuleObject.parent m).runOn h).1 = .ok p

/-- The name of a module is read from its bytes. -/
theorem runOn_name (hs : h.Sound) (ht : h.typeOf m = .ok Builtin.moduleType) :
    (name m).runOn h = (ScalarKind.decode h.symbols .symbol
      (h.memory.window (m.offset + nameLayout.offset) nameLayout.size), h) := by
  unfold name
  rw [runOn_bind_ok (by rw [runOn_look, expectType_eq_ok.2 ht]), runOn_readName hs ht]

theorem typeOf_of_name (hname : ((name m).runOn h).1 = .ok n) : h.typeOf m = .ok Builtin.moduleType := by
  unfold name at hname
  cases hexpect : h.expectType m Builtin.moduleType with
  | error err =>
    rw [runOn_bind_error (by rw [runOn_look, hexpect])] at hname
    cases hname
  | ok _ => exact expectType_eq_ok.1 hexpect

/-- The name of a module is in the first of its fields. -/
theorem name_eq_ok (hs : h.Sound) : ((name m).runOn h).1 = .ok n ↔
    h.typeOf m = .ok Builtin.moduleType ∧ h.Says m nameLayout (.scalar .symbol n) := by
  constructor
  · intro hname
    have ht := typeOf_of_name hname
    rw [runOn_name hs ht] at hname
    exact ⟨ht, hname⟩
  · rintro ⟨ht, hname⟩
    rw [runOn_name hs ht]
    exact hname

/-- A module keeps its name while nobody writes to the field for it. -/
theorem name_keeps (hname : ((name m).runOn h).1 = .ok n) (hs : h.Sound) (hs' : h'.Sound) (hk : Keeps S h h')
    (hS : ∀ j, nameLayout.offset ≤ j → j < nameLayout.offset + nameLayout.size → ¬S m j)
    (hgrows : h.symbols.Grows h'.symbols) : ((name m).runOn h').1 = .ok n := by
  obtain ⟨ht, hsays⟩ := (name_eq_ok hs).1 hname
  obtain ⟨l, hl⟩ := hs.exists_layout ht (hs.builtin rfl) rfl
  have hmem : nameLayout ∈ l.fields := by
    rw [hs.module_fields hl]
    exact List.mem_cons_self
  have hend := hs.registry.layouts.end_le hl hmem
  exact (name_eq_ok hs').2 ⟨hk.typeOf ht,
    hsays.keeps ⟨rfl, rfl, rfl⟩ (hs.size_record ht hl hmem) hend hk hS hgrows⟩

/-- Every module has a name. -/
theorem exists_name (ht : h.Tidy) (hm : h.typeOf m = .ok Builtin.moduleType) : ∃ n, ((name m).runOn h).1 = .ok n := by
  have hs := ht.sound
  obtain ⟨l, hl⟩ := hs.exists_layout hm (hs.builtin rfl) rfl
  have hfield : l.field nameField = .ok nameLayout := by
    rw [Layout.field, hs.module_fields hl]
    rfl
  have hlayout := Record.runOn_fieldLayout hs hm hl nameField
  rw [hfield] at hlayout
  obtain ⟨n, hn⟩ := (ht.readable (k := .symbol) (by decide)).declaredField (congrArg Prod.fst hlayout) rfl
  refine ⟨n, ?_⟩
  unfold name
  rw [runOn_bind_ok (by rw [runOn_look, expectType_eq_ok.2 hm]), hn]

theorem Tells.type (ht : Tells h m n p) : h.typeOf m = .ok Builtin.moduleType := typeOf_of_name ht.name

theorem Tells.edge (ht : Tells h m n p) (hs : h.Sound) : h.Parent m p := ((runOn_parent hs m).2 p).1 ht.parent

/-- A module goes on to tell the same while nobody writes to it. -/
theorem Tells.keeps (ht : Tells h m n p) (hs : h.Sound) (hs' : h'.Sound) (hk : Keeps S h h') (hS : ∀ j, ¬S m j)
    (hgrows : h.symbols.Grows h'.symbols) : Tells h' m n p where
  name := name_keeps ht.name hs hs' hk (fun j _ _ => hS j) hgrows
  parent := ((runOn_parent hs' m).2 p).2
    ((hk.parent_iff hs hs' (live_of_typeOf ht.type) hS).2 (ht.edge hs))

/-- A module with a parent tells a name too. -/
theorem exists_tells (ht : h.Tidy) (hp : h.Parent m p) : ∃ n, Tells h m n p := by
  obtain ⟨n, hn⟩ := exists_name ht hp.1
  exact ⟨n, hn, ((runOn_parent ht.sound m).2 p).2 hp⟩

/-! ## Lineages -/

/-- The names from a root down to a module, each for a module that lies in the one before it. -/
inductive Lineage (h : Heap) : Value → List Symbol → Prop
  | root {m : Value} {n : Symbol} (tells : Tells h m n m) : Lineage h m [n]
  | inside {m p : Value} {n : Symbol} {ns : List Symbol} (above : Lineage h p ns) (tells : Tells h m n p)
      (other : p ≠ m) : Lineage h m (ns ++ [n])

/-- The last of the names is that of the module. -/
theorem Lineage.exists_last (hl : Lineage h m ns) :
    ∃ above n, ns = above ++ [n] ∧ ((name m).runOn h).1 = .ok n := by
  cases hl with
  | root tells => exact ⟨[], _, rfl, tells.name⟩
  | inside above tells other => exact ⟨_, _, rfl, tells.name⟩

theorem Lineage.type (hl : Lineage h m ns) : h.typeOf m = .ok Builtin.moduleType := by
  obtain ⟨-, n, -, hname⟩ := hl.exists_last
  exact typeOf_of_name hname

/-- A module from which parents lead to a root has a lineage. By induction on the steps. -/
theorem exists_lineage (ht : h.Tidy) (hreach : ReflTransGen h.Inside m r) (hroot : h.Parent r r) :
    ∃ ns, Lineage h m ns := by
  induction hreach using ReflTransGen.head_induction_on with
  | refl =>
    obtain ⟨n, hn⟩ := exists_tells ht hroot
    exact ⟨[n], .root hn⟩
  | head hin _ ih =>
    obtain ⟨ns, hns⟩ := ih
    obtain ⟨n, hn⟩ := exists_tells ht hin.1
    exact ⟨ns ++ [n], .inside hns hn hin.2⟩

/-- A lineage has no more names than steps lead upwards. -/
theorem Lineage.length_le (hl : Lineage h m ns) (hs : h.Sound) (hk : h.HeightBelow m k) : ns.length ≤ k := by
  induction hl generalizing k with
  | root => exact hk [] (.singleton _)
  | inside _ tells other ih =>
    obtain ⟨j, rfl⟩ := Nat.exists_eq_add_of_le' (hk [] (.singleton _))
    rw [List.length_append]
    exact Nat.succ_le_succ (ih (hk.step ⟨tells.edge hs, other⟩))

/-- Modules that go on to tell the same have the same lineage. -/
theorem Lineage.mono (hl : Lineage h x ns) (hs : h.Sound)
    (hsame : ∀ y n p, ReflTransGen h.Inside x y → Tells h y n p → Tells h' y n p) : Lineage h' x ns := by
  induction hl with
  | root tells => exact .root (hsame _ _ _ .refl tells)
  | inside above tells other ih =>
    refine .inside (ih fun y n p hreach => hsame y n p (.head ⟨tells.edge hs, other⟩ hreach)) ?_ other
    exact hsame _ _ _ .refl tells

/-! ## Walks -/

/-- The names above a module are collected on the way up. -/
theorem runOn_namesAbove (hs : h.Sound) (hl : Lineage h m (above ++ [n])) (below : List Symbol)
    (hsteps : above.length < steps) : (namesAbove below steps m).runOn h = (.ok (above ++ below), h) := by
  generalize hns : above ++ [n] = ns at hl
  induction hl generalizing above n below steps with
  | root tells =>
    obtain ⟨j, rfl⟩ := Nat.exists_eq_add_of_le' (Nat.zero_lt_of_lt hsteps)
    obtain ⟨rfl, -⟩ := List.append_inj' (hns.trans (List.nil_append _).symm) rfl
    unfold namesAbove
    rw [runOn_bind_ok (runOn_parent_of hs (tells.edge hs)), if_pos rfl]
    rfl
  | @inside m p n' ns hup tells other ih =>
    obtain ⟨j, rfl⟩ := Nat.exists_eq_add_of_le' (Nat.zero_lt_of_lt hsteps)
    obtain ⟨rfl, -⟩ := List.append_inj' hns rfl
    obtain ⟨upper, outer, rfl, hname⟩ := hup.exists_last
    rw [List.length_append, List.length_singleton] at hsteps
    have hnamed : (name p).runOn h = (.ok outer, h) := Prod.ext hname (by rw [runOn_name hs hup.type])
    unfold namesAbove
    rw [runOn_bind_ok (runOn_parent_of hs (tells.edge hs)), if_neg other, runOn_bind_ok hnamed,
      ih (outer :: below) (by omega) rfl, List.append_assoc]
    rfl

/-- Names that were collected are a lineage. By induction on the steps. -/
theorem lineage_of_namesAbove (hs : h.Sound) (hname : ((name m).runOn h).1 = .ok n)
    (hrun : ((namesAbove below steps m).runOn h).1 = .ok out) :
    ∃ above, Lineage h m (above ++ [n]) ∧ out = above ++ below := by
  induction steps generalizing m n below with
  | zero => cases hrun
  | succ steps ih =>
    unfold namesAbove at hrun
    rcases parent_cases hs m with ⟨e, hparent, -⟩ | hparent | ⟨p, hparent, hin⟩
    · rw [runOn_bind_error hparent] at hrun
      cases hrun
    · rw [runOn_bind_ok hparent, if_pos rfl] at hrun
      cases hrun
      exact ⟨[], .root ⟨hname, congrArg Prod.fst hparent⟩, rfl⟩
    · rw [runOn_bind_ok hparent, if_neg hin.2] at hrun
      have hkept : ((name p).runOn h).2 = h := (name_asks hs p).kept.symm
      rcases hrun' : (name p).runOn h with ⟨e | outer, h₁⟩
      · rw [runOn_bind_error hrun'] at hrun
        cases hrun
      · rw [hrun'] at hkept
        obtain rfl : h₁ = h := hkept
        rw [runOn_bind_ok hrun'] at hrun
        obtain ⟨upper, hl, rfl⟩ := ih (congrArg Prod.fst hrun') hrun
        exact ⟨upper ++ [outer], .inside hl ⟨hname, congrArg Prod.fst hparent⟩ hin.2,
          (List.append_assoc upper [outer] below).symm⟩

/-! ## Paths -/

/-- Names as a path shows them. -/
def dotted (ns : List Symbol) : String := ".".intercalate (ns.map Symbol.text)

/-- Names as they stand in front of further ones in a path. -/
def ancestry : List Symbol → String
  | [] => ""
  | n :: ns => n.text ++ "." ++ ancestry ns

@[simp] theorem dotted_singleton : dotted [n] = n.text := String.intercalate_singleton

@[simp] theorem dotted_cons_cons {k : Symbol} : dotted (n :: k :: ns) = n.text ++ "." ++ dotted (k :: ns) :=
  String.intercalate_cons_cons

theorem dotted_append (above below : List Symbol) :
    dotted (above ++ n :: below) = ancestry above ++ dotted (n :: below) := by
  induction above with
  | nil => rw [ancestry, String.empty_append, List.nil_append]
  | cons k above ih =>
    rw [ancestry, String.append_assoc, ← ih]
    cases above with
    | nil => exact dotted_cons_cons
    | cons j above => exact dotted_cons_cons

/-- In front of a name stands the path of the module around it. -/
theorem ancestry_eq (hne : ns ≠ []) : ancestry ns = dotted ns ++ "." := by
  induction ns with
  | nil => exact absurd rfl hne
  | cons n ns ih =>
    cases ns with
    | nil => rw [ancestry, ancestry, dotted_singleton, String.append_empty]
    | cons k ns => rw [ancestry, ih (List.cons_ne_nil k ns), dotted_cons_cons, ← String.append_assoc]

/-- A path goes on behind a name. -/
theorem exists_behind (n : Symbol) (below : List Symbol) : ∃ rest, dotted (n :: below) = n.text ++ rest := by
  cases below with
  | nil => exact ⟨"", by rw [dotted_singleton, String.append_empty]⟩
  | cons k below => exact ⟨"." ++ dotted (k :: below), by rw [dotted_cons_cons, String.append_assoc]⟩

theorem Lineage.ne_nil (hl : Lineage h m ns) : ns ≠ [] := by
  obtain ⟨above, n, rfl, -⟩ := hl.exists_last
  exact List.append_ne_nil_of_right_ne_nil above (List.cons_ne_nil n [])

/-- The path of a module spells its lineage. -/
theorem Lineage.runOn_path (hl : Lineage h m ns) (hs : h.Sound) (ha : h.Acyclic) :
    (path m).runOn h = (.ok (dotted ns), h) := by
  have hlength := hl.length_le hs (ha.heightBelow m)
  obtain ⟨above, n, rfl, hname⟩ := hl.exists_last
  rw [List.length_append, List.length_singleton] at hlength
  have hnamed : (name m).runOn h = (.ok n, h) := Prod.ext hname (by rw [runOn_name hs hl.type])
  unfold path
  rw [runOn_bind_ok hnamed, runOn_bind_ok (Action.runOn_get h), runOn_bind_ok (runOn_namesAbove hs hl [n] hlength)]
  rfl

/-- Modules with a path have a lineage. -/
theorem path_eq_ok (hs : h.Sound) (ha : h.Acyclic) :
    ((path m).runOn h).1 = .ok text ↔ ∃ ns, Lineage h m ns ∧ text = dotted ns := by
  constructor
  · intro hpath
    have hrun : (path m).runOn h = (.ok text, ((path m).runOn h).2) := Prod.ext hpath rfl
    unfold path at hrun
    obtain ⟨n, h₁, hname, hrun⟩ := runOn_bind_eq_ok.1 hrun
    obtain ⟨_, _, hget, hrun⟩ := runOn_bind_eq_ok.1 hrun
    cases (Action.runOn_get h₁).symm.trans hget
    obtain ⟨names, h₂, hnames, hrun⟩ := runOn_bind_eq_ok.1 hrun
    cases hrun
    obtain rfl : h = h₁ := by
      have hkept := (name_asks hs m).kept
      rwa [hname] at hkept
    obtain ⟨above, hl, rfl⟩ := lineage_of_namesAbove hs (congrArg Prod.fst hname) (congrArg Prod.fst hnames)
    exact ⟨above ++ [n], hl, rfl⟩
  · rintro ⟨ns, hl, rfl⟩
    rw [hl.runOn_path hs ha]

/-! ## The check in front of another parent -/

/-- From a module with a lineage the check comes to the root, unless it meets the module on its way. -/
theorem checkAbove_passes (hs : h.Sound) (hl : Lineage h x ns) (hfar : ¬ReflTransGen h.Inside x m)
    (hsteps : ns.length ≤ steps) : (checkAbove m target steps x).runOn h = (.ok ⟨⟩, h) := by
  have hne {y : Value} (hfar : ¬ReflTransGen h.Inside y m) : y ≠ m := fun heq => hfar (heq ▸ .refl)
  induction hl generalizing steps with
  | root tells =>
    rw [List.length_singleton] at hsteps
    obtain ⟨j, rfl⟩ := Nat.exists_eq_add_of_le' hsteps
    unfold checkAbove
    rw [if_neg (hne hfar), runOn_bind_ok (runOn_parent_of hs (tells.edge hs)), if_pos rfl]
    rfl
  | @inside x p n ns above tells other ih =>
    rw [List.length_append, List.length_singleton] at hsteps
    obtain ⟨j, rfl⟩ := Nat.exists_eq_add_of_le' (Nat.le_of_add_left_le hsteps)
    unfold checkAbove
    rw [if_neg (hne hfar), runOn_bind_ok (runOn_parent_of hs (tells.edge hs)), if_neg other]
    exact ih (fun hreach => hfar (.head ⟨tells.edge hs, other⟩ hreach)) (Nat.le_of_succ_le_succ hsteps)

/-- A module with a lineage may become the parent of the modules that it does not lie in. -/
theorem runOn_checkParent (hs : h.Sound) (ha : h.Acyclic) (hl : Lineage h p ns)
    (hfar : p = m ∨ ¬ReflTransGen h.Inside p m) : (checkParent m parentField p).runOn h = (.ok ⟨⟩, h) := by
  unfold checkParent
  split
  · rename_i hother
    rw [runOn_bind_ok (by rw [runOn_look, hl.type]), if_pos rfl, runOn_bind_ok (Action.runOn_get h)]
    exact checkAbove_passes hs hl (hfar.resolve_left hother.2) (hl.length_le hs (ha.heightBelow p))
  · rfl

end ModuleObject
end TypedHeap
