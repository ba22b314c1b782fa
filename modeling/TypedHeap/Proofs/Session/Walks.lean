import TypedHeap.Proofs.Node.Walk
import TypedHeap.Proofs.Session.Run

/-!
# Walks through expressions

Expressions share arguments, and can be changed until they contain themselves. A walk comes to an end all
the same, after as many steps as there are objects at most.

Main result: `Session.Reachable.walk_preorder`.
-/

namespace TypedHeap.Session

open Heap Nodes

variable {s : Session} {root : Value}

/-- A walk ends. If all expressions that can be reached have all of their arguments, the walk visits exactly
what can be reached, each value once, in the order of the recursive traversal from left to right, and tells how
many values these are. Else it visits some of the first values in that order and fails. More steps would change
nothing. -/
theorem Reachable.walk_preorder (hs : Reachable s) (ts : NodeTypes) (hroot : s.heap.Live root) :
    ∃ order w, (∀ o, Preorder (arguments ts s.heap) [] [root] o ↔ o = order) ∧ order.Nodup ∧
      (∀ v, v ∈ order ↔ Relation.ReflTransGen (IsArgument ts s.heap) root v) ∧
      ((walk ts root).runOn s.heap).1 = .ok w ∧
      (∀ n, s.heap.objects.length ≤ n → ((walkFrom ts n [] [root]).runOn s.heap).1 = .ok w) ∧
      ((∀ e, Relation.ReflTransGen (IsArgument ts s.heap) root e → Complete ts s.heap e) →
        w = ⟨order, .ok order.length⟩) ∧
      ((∃ e, Relation.ReflTransGen (IsArgument ts s.heap) root e ∧ ¬Complete ts s.heap e) →
        w.visited <+: order ∧ ∃ err, w.outcome = .error err ∧ err ≠ endlessWalk) := by
  have hsound := hs.sound.heap
  have hnext (v : Value) (_ : s.heap.Live v) : ∀ w ∈ arguments ts s.heap v, s.heap.Live w :=
    fun w hw => live_of_mem_arguments hsound hw
  have htodo : ∀ v ∈ [root], s.heap.Live v := List.forall_mem_singleton.2 hroot
  obtain ⟨order, horder⟩ := Preorder.exists_order (fun _ => length_le_objects) hnext
    (Nat.le_add_left _ _) .nil nofun htodo
  have hlive := horder.forall_mem htodo hnext
  have hmem (v : Value) : v ∈ order ↔ Relation.ReflTransGen (IsArgument ts s.heap) root v := by
    rw [horder.mem_iff]
    simp only [mem_arguments hsound]
  have hlength : order.length ≤ s.heap.objects.length := length_le_objects horder.nodup.1 hlive
  obtain ⟨w, hrun, hall, hsome⟩ := walkFrom_ends hsound horder hlive
  refine ⟨order, w, fun o => ⟨fun ho => ho.unique horder, fun heq => heq ▸ horder⟩, horder.nodup.1, hmem, ?_,
    fun n hn => hrun n (Nat.le_trans hlength hn), fun hc => ?_, ?_⟩
  · exact hrun _ (Nat.le_succ_of_le hlength)
  · rw [hall fun v hv => hc v ((hmem v).1 hv), List.length_nil, Nat.zero_add]
    rfl
  · rintro ⟨e, he, hno⟩
    obtain ⟨hfirst, err, hfailure, herr⟩ := hsome ⟨e, (hmem e).2 he, hno⟩
    exact ⟨hfirst, err, hfailure, herr _⟩

/-! ## A walk in a circle -/

/-- The node types of a heap in which nothing was declared before them. -/
def nodeTypes : NodeTypes :=
  { goto := typeAt 23, line := typeAt 24, quote := typeAt 25, slot := typeAt 26, typedSlot := typeAt 27
    global := typeAt 28, phi := typeAt 29, phic := typeAt 30, upsilon := typeAt 31, pi := typeAt 32
    newvar := typeAt 33, ssa := typeAt 34, expr := typeAt 35, anyVector := typeAt 21, int32Vector := typeAt 22 }

/-- A call with three arguments, the first one replaced by the call itself. -/
def circular : Session :=
  start ⟨64, 4096⟩ .off
    |>.next .registerNodes
    |>.next (.encode nodeTypes (.ssa 1))
    |>.next (.encode nodeTypes (.expr "call" [object 32, object 16, object 32]))
    |>.next (.setArgument nodeTypes (object 176) 0 (object 176))

theorem walk_preorder_circular :
    Reachable circular ∧ circular.heap.Live (object 176) ∧
      ((walk nodeTypes (object 176)).runOn circular.heap).1 = .ok ⟨[object 176, object 16, object 32], .ok 3⟩ ∧
      Preorder (arguments nodeTypes circular.heap) [] [object 176] [object 176, object 16, object 32] := by
  have hs : Reachable circular :=
    ((((reachable_start _ _).next _ (by nofun)).next _ (by nofun)).next _ (by nofun)).next _ (by nofun)
  have hsize : circular.heap.size? (object 176) = some 16 := by decide +kernel
  obtain ⟨⟨visited, outcome⟩, hwalk, heq⟩ := exists_answer
    (x := ((walk nodeTypes (object 176)).runOn circular.heap).1) (g := fun w => (w.visited, w.outcome.toOption))
    (b := ([object 176, object 16, object 32], some 3)) (by decide +kernel)
  obtain ⟨order, w, horder, -, -, hw, -, hall, hsome⟩ := hs.walk_preorder nodeTypes ⟨16, hsize⟩
  cases hwalk.symm.trans hw
  -- The walk has not failed, so no expression lacks an argument.
  have hcomplete (e : Value) (he : Relation.ReflTransGen (IsArgument nodeTypes circular.heap) (object 176) e) :
      Complete nodeTypes circular.heap e := by
    by_contra hno
    obtain ⟨-, err, hfailure, -⟩ := hsome ⟨e, he, hno⟩
    rw [show outcome = .error err from hfailure] at heq
    cases congrArg Prod.snd heq
  obtain ⟨rfl, rfl⟩ := Walk.mk.inj (hall hcomplete)
  obtain rfl : visited = [object 176, object 16, object 32] := congrArg Prod.fst heq
  exact ⟨hs, ⟨16, hsize⟩, hwalk, (horder _).2 rfl⟩

end TypedHeap.Session
