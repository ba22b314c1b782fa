import TypedHeap.Proofs.Heap.Modules
import TypedHeap.Proofs.Session.Run

/-!
# Modules lead up to a root

Modules get their parents in many ways: when they are made, when a field is set, or from values that a
caller made up, which may name the very object that is about to be made. None of them leads to modules
that lie in each other in a circle. So walking up from a module comes to an end.

* `ModuleObject.LiesIn`: a module and the parent that it tells, if that is another value.

Main result: `Session.Reachable.modules_acyclic`.
-/

namespace TypedHeap

open Heap ModuleObject

/-- The module `m` tells that its parent is `p`, which is not `m` itself. -/
def ModuleObject.LiesIn (h : Heap) (m p : Value) : Prop := ((parent m).runOn h).1 = .ok p ∧ p ≠ m

theorem Heap.Sound.liesIn_iff {h : Heap} (hs : h.Sound) {m p : Value} : LiesIn h m p ↔ h.Inside m p := by
  rw [LiesIn, Inside, (runOn_parent hs m).2 p]

namespace Session

variable {s t : Session}

theorem Reachable.acyclic (hs : Reachable s) : s.heap.Acyclic := hs.invariant acyclic_fresh Trail.acyclic

/-- No module lies in itself over any number of steps, so the names above a module and the check in front
of a new parent are complete after as many steps as there are objects: the walks never give up, and do the
same however many steps they are given. -/
theorem Reachable.modules_acyclic (hs : Reachable s) :
    (∀ m, ¬Relation.TransGen (LiesIn s.heap) m m) ∧
    (∀ m, ((path m).runOn s.heap).1 ≠ .error endlessChain ∧
      ∀ below n, s.heap.objects.length < n → (namesAbove below n m).runOn s.heap =
        (namesAbove below (s.heap.objects.length + 1) m).runOn s.heap) ∧
    ∀ m i p, ((checkParent m i p).runOn s.heap).1 ≠ .error endlessChain ∧
      ∀ n, s.heap.objects.length < n → (checkAbove m p n p).runOn s.heap =
        (checkAbove m p (s.heap.objects.length + 1) p).runOn s.heap := by
  have hsound := hs.sound.heap
  have ha := hs.acyclic
  refine ⟨fun m hcycle => ha m ?_, fun m => ⟨?_, fun below n hn => ?_⟩, fun m i p => ⟨?_, fun n hn => ?_⟩⟩
  · exact Relation.TransGen.mono (fun _ _ => hsound.liesIn_iff.1) _ _ hcycle
  · exact fun herror => path_fails hsound ha m _ herror rfl
  · exact (namesAbove_ends hsound below (ha.heightBelow m) hn).1
  · exact fun herror => checkParent_fails hsound ha m i p _ herror rfl
  · exact (checkAbove_ends hsound m p (ha.heightBelow p) hn).1

/-- Three modules inside each other, an attempt to put the outermost one into the innermost one, and a
module whose parent was made up to be the module itself. -/
def nested : Session :=
  start ⟨64, 4096⟩ .off
    |>.next (.newModule "Main" none)
    |>.next (.newModule "Core" (some (object 16)))
    |>.next (.newModule "Any" (some (object 48)))
    |>.next (.fieldWrite (object 16) parentField (object 80))
    |>.next (.box .symbol "Main")
    |>.next (.newRecord Builtin.moduleType [object 112, object 128])

theorem modules_acyclic_nested :
    Reachable nested ∧ LiesIn nested.heap (object 80) (object 48) ∧ LiesIn nested.heap (object 48) (object 16) ∧
      ((parent (object 128)).runOn nested.heap).1 = .ok (object 128) ∧
      ¬Relation.TransGen (LiesIn nested.heap) (object 80) (object 80) ∧
      ((checkParent (object 16) parentField (object 80)).runOn nested.heap).1 ≠ .error endlessChain := by
  have hs : Reachable nested :=
    ((((((reachable_start _ _).next _ (by nofun)).next _ (by nofun)).next _ (by nofun)).next _ (by nofun)).next _
      (by nofun)).next _ (by nofun)
  have hparents : ((parent (object 80)).runOn nested.heap).1 = .ok (object 48) ∧
      ((parent (object 48)).runOn nested.heap).1 = .ok (object 16) ∧
      ((parent (object 128)).runOn nested.heap).1 = .ok (object 128) := by decide +kernel
  obtain ⟨hinner, houter, hself⟩ := hparents
  obtain ⟨hacyclic, -, hcheck⟩ := hs.modules_acyclic
  exact ⟨hs, ⟨hinner, by decide⟩, ⟨houter, by decide⟩, hself, hacyclic _, (hcheck _ _ _).1⟩

end Session

end TypedHeap
