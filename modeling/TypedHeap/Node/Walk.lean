import TypedHeap.Node.Expr

/-!
# Walking expressions

A walk visits an object and then, if it is an expression, its arguments from left to right, depth
first. Every object is visited once, so shared and circular arguments do no harm, and what a quote
holds is not entered.

Skipping an object that was visited before costs no step, so a walk takes at most one step for each
object there is. `Nodes.walk` allows one more than that.

* `Nodes.walk`: the objects visited, and how the walk ended.
* `Nodes.visit`: the number of the objects visited, and the objects.
-/

namespace TypedHeap.Nodes

/-- A walk that is over. -/
structure Walk where
  /-- The objects visited, in order. -/
  visited : List Value
  /-- The number of the objects visited, or what stopped the walk before its end. -/
  outcome : Except Error Nat

/-- The first `count` arguments of an expression in front of `rest`. The last one is read first. -/
def argumentsBefore (ts : NodeTypes) (e : Value) : Nat → List Value → HeapM (List Value)
  | 0, rest => return rest
  | count + 1, rest => do
    let x ← argument ts e count
    argumentsBefore ts e count (x :: rest)

/-- What is to be visited after `v`, when `rest` was to be visited after it already. -/
def after (ts : NodeTypes) (v : Value) (rest : List Value) : HeapM (List Value) := do
  match ← Action.look (kindOf ts · v) with
  | some .expr =>
    let n ← argumentCount ts v
    argumentsBefore ts v n rest
  | _ => return rest

/-- A walk that visits more objects than there are. -/
def endlessWalk : Error := .invalidArgument "walk does not end"

/-- Go on with a walk that has visited the objects in `seen`, the last one in front, and has those in
`pending` before it, for at most `steps` more objects. -/
def walkFrom (ts : NodeTypes) : Nat → List Value → List Value → HeapM Walk
  | steps, seen, pending => do
    match pending.dropWhile (seen.contains ·), steps with
    | [], _ => return ⟨seen.reverse, .ok seen.length⟩
    | _ :: _, 0 => return ⟨seen.reverse, .error endlessWalk⟩
    | v :: rest, steps + 1 =>
      match ← (after ts v rest).attempt with
      | .ok next => walkFrom ts steps (v :: seen) next
      | .error e => return ⟨(v :: seen).reverse, .error e⟩

/-- Visit an object and what lies below it. A failure is part of the result. -/
def walk (ts : NodeTypes) (root : Value) : HeapM Walk := do
  walkFrom ts ((← get).objects.length + 1) [] [root]

/-- The number of the objects that a walk visits, and the objects in order; a walk that is stopped is a
failure. -/
def visit (ts : NodeTypes) (root : Value) : HeapM (Nat × List Value) := do
  let w ← walk ts root
  return (← w.outcome, w.visited)

end TypedHeap.Nodes
