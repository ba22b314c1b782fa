import TypedHeap.Proofs.Object.Reparenting
import TypedHeap.Proofs.Session.Modules
import TypedHeap.Proofs.Session.RoundTrip
import TypedHeap.Proofs.Session.Values

/-!
# Paths along a run

Whatever operations have made of the modules, the path of a module spells the names from its root down. Giving a
module another parent changes the front of all paths that lead through the module, and no other path.

* `ModuleObject.HasRoot`: parents lead from a module up to a root.
* `Session.Reparents`: what becomes of the paths when a module gets another parent.

Main result: `Session.Reachable.module_paths`.
-/

namespace TypedHeap

open Heap ModuleObject Relation

/-- The parents of `m` are modules up to a root, which is its own parent. -/
def ModuleObject.HasRoot (h : Heap) (m : Value) : Prop :=
  ∃ r, ReflTransGen (LiesIn h) m r ∧ ((parent r).runOn h).1 = .ok r

namespace Session

variable {s : Session} {m p : Value}

theorem Reachable.liesIn_eq (hs : Reachable s) : LiesIn s.heap = s.heap.Inside :=
  funext fun _ => funext fun _ => propext hs.sound.heap.liesIn_iff

theorem Reachable.exists_lineage (hs : Reachable s) (hm : HasRoot s.heap m) : ∃ ns, Lineage s.heap m ns := by
  obtain ⟨r, hreach, hroot⟩ := hm
  rw [hs.liesIn_eq] at hreach
  exact ModuleObject.exists_lineage hs.tidy hreach (((runOn_parent hs.sound.heap r).2 r).1 hroot)

theorem Reachable.path_iff (hs : Reachable s) {text : String} :
    ((path m).runOn s.heap).1 = .ok text ↔ ∃ ns, Lineage s.heap m ns ∧ text = dotted ns :=
  path_eq_ok hs.sound.heap hs.acyclic

/-- What becomes of the paths when `p` is to be the parent of `m`. -/
structure Reparents (s : Session) (m p : Value) : Prop where
  /-- A module may become a root, or be put in any module that does not lie inside it. -/
  accepted : ((Operation.fieldWrite m parentField p).perform.runOn s.heap).1 = .ok () ↔
    p = m ∨ ¬TransGen (LiesIn s.heap) p m
  rejected : ∀ e, ((Operation.fieldWrite m parentField p).perform.runOn s.heap).1 = .error e →
    (s.next (.fieldWrite m parentField p)).heap = s.heap
  /-- What does not lie inside the module keeps its path. -/
  others : ((Operation.fieldWrite m parentField p).perform.runOn s.heap).1 = .ok () →
    ∀ x, ¬ReflTransGen (LiesIn s.heap) x m → ∀ text,
      ((path x).runOn (s.next (.fieldWrite m parentField p)).heap).1 = .ok text ↔
        ((path x).runOn s.heap).1 = .ok text
  /-- For the module and what lies inside it, the front of the path is exchanged. -/
  inside : ((Operation.fieldWrite m parentField p).perform.runOn s.heap).1 = .ok () →
    ∃ outer front n, ((path p).runOn s.heap).1 = .ok outer ∧ ((name m).runOn s.heap).1 = .ok n ∧
      ((path m).runOn s.heap).1 = .ok (front ++ n.text) ∧
      ∀ x, ReflTransGen (LiesIn s.heap) x m → ∃ rest,
        ((path x).runOn s.heap).1 = .ok (front ++ n.text ++ rest) ∧
        ((path x).runOn (s.next (.fieldWrite m parentField p)).heap).1 =
          .ok ((if p = m then "" else outer ++ ".") ++ n.text ++ rest)

/-- An accepted parent is stored, and another one is not. -/
theorem Reachable.fieldWrite_cases (hs : Reachable s) (hm : s.heap.typeOf m = .ok Builtin.moduleType)
    (hp : s.heap.Live p) :
    (∃ e, (Operation.fieldWrite m parentField p).perform.runOn s.heap = (.error e, s.heap)) ∨
      ((Operation.fieldWrite m parentField p).perform.runOn s.heap).1 = .ok () ∧
        (p = m ∨ ¬ReflTransGen s.heap.Inside p m) ∧
        Moved m p s.heap (s.next (.fieldWrite m parentField p)).heap := by
  have hends := write_parent_ends hs.sound.heap hm hp
  rcases hrun : (Record.write m parentField p).runOn s.heap with ⟨e | a, h'⟩
  · obtain rfl : h' = s.heap := hends.failure e h' hrun
    exact .inl ⟨e, hrun⟩
  · obtain ⟨hfar, hset⟩ := hends.answer a h' hrun
    refine .inr ⟨congrArg Prod.fst hrun, hfar, ?_⟩
    rw [next_heap, show (Operation.fieldWrite m parentField p).perform.runOn s.heap = _ from hrun]
    exact moved_of_set hs.tidy hm hset

theorem Reachable.reparents (hs : Reachable s) (hm : HasRoot s.heap m) (hp : HasRoot s.heap p) :
    s.Reparents m p := by
  have hsound := hs.sound.heap
  have hnext : Reachable (s.next (.fieldWrite m parentField p)) := hs.next _ (allows_of_none rfl)
  obtain ⟨ns, hm⟩ := hs.exists_lineage hm
  obtain ⟨outer, hp⟩ := hs.exists_lineage hp
  have hcases := hs.fieldWrite_cases hm.type (live_of_typeOf hp.type)
  refine ⟨⟨fun hok => ?_, fun hfar => ?_⟩, fun e herror => ?_, fun hok x hx text => ?_, fun hok => ?_⟩
  · obtain ⟨e, hrun⟩ | ⟨-, hfar, -⟩ := hcases
    · rw [hrun] at hok
      cases hok
    · rw [hs.liesIn_eq]
      exact hfar.imp_right fun hnot hreach => hnot hreach.to_reflTransGen
  · refine write_parent_accepts hsound hs.acyclic hm.type hp ?_
    rw [hs.liesIn_eq] at hfar
    exact or_iff_not_imp_left.2 fun hne hreach => hfar.elim hne
      fun hnot => hnot ((reflTransGen_iff_eq_or_transGen.1 hreach).resolve_left (Ne.symm hne))
  · obtain ⟨e', hrun⟩ | ⟨hok, -⟩ := hcases
    · rw [next_heap, hrun]
    · rw [hok] at herror
      cases herror
  · obtain ⟨e, hrun⟩ | ⟨-, -, hmoved⟩ := hcases
    · rw [hrun] at hok
      cases hok
    · rw [hs.liesIn_eq] at hx
      simp only [hs.path_iff, hnext.path_iff, hmoved.lineage_iff hsound hx]
  · obtain ⟨e, hrun⟩ | ⟨-, hfar, hmoved⟩ := hcases
    · rw [hrun] at hok
      cases hok
    · obtain ⟨above, n, rfl, hname⟩ := hm.exists_last
      have hm' := hmoved.lineage_own hsound hname hfar hp
      refine ⟨dotted outer, ancestry above, n, hs.path_iff.2 ⟨_, hp, rfl⟩, hname,
        hs.path_iff.2 ⟨_, hm, ?_⟩, fun x hx => ?_⟩
      · rw [dotted_append, dotted_singleton]
      · rw [hs.liesIn_eq] at hx
        obtain ⟨below, hbefore, hafter⟩ := hmoved.lineage_below hs.tidy hx hm hm'
        obtain ⟨rest, hrest⟩ := exists_behind n below
        refine ⟨rest, hs.path_iff.2 ⟨_, hbefore, ?_⟩, hnext.path_iff.2 ⟨_, hafter, ?_⟩⟩
        · rw [dotted_append, hrest, String.append_assoc]
        · have hfront : ancestry (if p = m then [] else outer) = if p = m then "" else dotted outer ++ "." := by
            rw [apply_ite ancestry, ancestry_eq hp.ne_nil, ancestry]
          rw [dotted_append, hfront, hrest, String.append_assoc]

/-- A new module stands behind the path of its parent. -/
theorem Reachable.path_of_new (hs : Reachable s) {n : Symbol} {text : String}
    (hnew : ((Operation.newModule n (some p)).perform.runOn s.heap).1 = .ok m)
    (hpath : ((path p).runOn s.heap).1 = .ok text) :
    ((path p).runOn (s.next (.newModule n (some p))).heap).1 = .ok text ∧
      ((path m).runOn (s.next (.newModule n (some p))).heap).1 = .ok (text ++ "." ++ n.text) := by
  have hsound := hs.sound.heap
  have hnext : Reachable (s.next (.newModule n (some p))) := hs.next _ (allows_of_none rfl)
  have hrun : (ModuleObject.new n (some p)).runOn s.heap =
      (.ok m, (s.next (.newModule n (some p))).heap) := Prod.ext hnew (next_heap s (.newModule n (some p))).symm
  have htells : Tells (s.next (.newModule n (some p))).heap m n p :=
    (new_tells hsound hs.orderly.keys n (some p)).answer m _ hrun
  have hmeets := ModuleObject.new_meets (S := fun v _ => ¬s.heap.Live v) ⟨hsound, fun hv _ => hv⟩ n (some p)
  have hfresh := (hmeets.answer m hnew).1
  have hpath' := hmeets.kept
  rw [hrun] at hpath'
  obtain ⟨ns, hl, rfl⟩ := hs.path_iff.1 hpath
  have hl' : Lineage (s.next (.newModule n (some p))).heap p ns := by
    refine hl.mono hsound fun y k q _ ht => ?_
    exact ht.keeps hsound hnext.sound.heap (hpath'.keeps hsound) (fun _ hdead => hdead (live_of_typeOf ht.type))
      (hpath'.trail.symbols hsound)
  refine ⟨hnext.path_iff.2 ⟨ns, hl', rfl⟩, hnext.path_iff.2 ⟨ns ++ [n], .inside hl' htells ?_, ?_⟩⟩
  · rintro rfl
    exact hfresh (live_of_typeOf hl.type)
  · rw [dotted_append, dotted_singleton, ancestry_eq hl.ne_nil]

/-- In every heap that operations lead to:

* the path of a module whose parents lead up to a root is the names from the root down to it, joined by dots;
* a new module in a module with a path has that path with its own name behind it;
* a module is put in another one unless that lies inside it. Then the paths of the module and of what lies inside
  it get another front, and no other path changes. If it is not put there, nothing changes. -/
theorem Reachable.module_paths (hs : Reachable s) :
    (∀ m, HasRoot s.heap m → ∃ ns, Lineage s.heap m ns ∧
      (path m).runOn s.heap = (.ok (".".intercalate (ns.map Symbol.text)), s.heap)) ∧
    (∀ n p m text, ((Operation.newModule n (some p)).perform.runOn s.heap).1 = .ok m →
      ((path p).runOn s.heap).1 = .ok text →
        ((path p).runOn (s.next (.newModule n (some p))).heap).1 = .ok text ∧
          ((path m).runOn (s.next (.newModule n (some p))).heap).1 = .ok (text ++ "." ++ n.text)) ∧
    ∀ m p, HasRoot s.heap m → HasRoot s.heap p → s.Reparents m p := by
  refine ⟨fun m hm => ?_, fun n p m text => hs.path_of_new, fun m p => hs.reparents⟩
  obtain ⟨ns, hl⟩ := hs.exists_lineage hm
  exact ⟨ns, hl, hl.runOn_path hs.sound.heap hs.acyclic⟩

/-- Three modules inside each other, and a root beside them. -/
def shelved : Session :=
  start ⟨64, 4096⟩ .off
    |>.next (.newModule "Main" none)
    |>.next (.newModule "Core" (some (object 16)))
    |>.next (.newModule "Sort" (some (object 48)))
    |>.next (.newModule "Lib" none)

theorem module_paths_shelved :
    Reachable shelved ∧ HasRoot shelved.heap (object 48) ∧ HasRoot shelved.heap (object 80) ∧
      HasRoot shelved.heap (object 112) ∧
      (∃ ns, Lineage shelved.heap (object 80) ns ∧ ".".intercalate (ns.map Symbol.text) = "Main.Core.Sort") ∧
      ((path (object 144)).runOn (shelved.next (.newModule "Heap" (some (object 80)))).heap).1 =
        .ok ("Main.Core.Sort" ++ "." ++ "Heap") ∧
      shelved.Reparents (object 48) (object 112) ∧
      ((path (object 80)).runOn (shelved.next (.fieldWrite (object 48) parentField (object 112))).heap).1 =
        .ok "Lib.Core.Sort" ∧
      shelved.Reparents (object 48) (object 80) ∧
      ((Operation.fieldWrite (object 48) parentField (object 80)).perform.runOn shelved.heap).1 =
        .error (.invalidArgument "module Core cannot be nested inside its own descendant Sort") := by
  have hs : Reachable shelved :=
    ((((reachable_start _ _).next _ (allows_of_none rfl)).next _ (allows_of_none rfl)).next _
      (allows_of_none rfl)).next _ (allows_of_none rfl)
  have hruns : ((parent (object 80)).runOn shelved.heap).1 = .ok (object 48) ∧
      ((parent (object 48)).runOn shelved.heap).1 = .ok (object 16) ∧
      ((parent (object 16)).runOn shelved.heap).1 = .ok (object 16) ∧
      ((parent (object 112)).runOn shelved.heap).1 = .ok (object 112) ∧
      ((path (object 80)).runOn shelved.heap).1 = .ok "Main.Core.Sort" ∧
      ((Operation.newModule "Heap" (some (object 80))).perform.runOn shelved.heap).1 = .ok (object 144) ∧
      ((path (object 80)).runOn (shelved.next (.fieldWrite (object 48) parentField (object 112))).heap).1 =
        .ok "Lib.Core.Sort" ∧
      ((Operation.fieldWrite (object 48) parentField (object 80)).perform.runOn shelved.heap).1 =
        .error (.invalidArgument "module Core cannot be nested inside its own descendant Sort") := by
    decide +kernel
  obtain ⟨hinner, houter, hroot, haside, hpath, hmade, hmoved, hrefused⟩ := hruns
  have hcore : HasRoot shelved.heap (object 48) := ⟨object 16, .single ⟨houter, by decide⟩, hroot⟩
  have hsort : HasRoot shelved.heap (object 80) :=
    ⟨object 16, .head ⟨hinner, by decide⟩ (.single ⟨houter, by decide⟩), hroot⟩
  have hlib : HasRoot shelved.heap (object 112) := ⟨object 112, .refl, haside⟩
  obtain ⟨hpaths, hnew, hmoves⟩ := hs.module_paths
  obtain ⟨ns, hl, hrun⟩ := hpaths _ hsort
  rw [hrun] at hpath
  exact ⟨hs, hcore, hsort, hlib, ⟨ns, hl, Except.ok.inj hpath⟩,
    (hnew "Heap" (object 80) (object 144) _ hmade (by rw [hrun, hpath])).2, hmoves _ _ hcore hlib, hmoved,
    hmoves _ _ hcore hsort, hrefused⟩

end Session

end TypedHeap
