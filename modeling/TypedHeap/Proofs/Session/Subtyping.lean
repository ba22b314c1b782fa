import TypedHeap.Proofs.Session.Unions
import TypedHeap.Proofs.Types.Supertypes

/-!
# Subtyping along a run

Whatever was declared and applied, the subtype test has an answer for any two types that are registered. The
answer is what unions and chains of supertypes say, so it makes the types a preorder.

* `Session.ladder`: an abstract type below another one, a struct at the bottom, and unions of them.

Main result: `Session.Reachable.isa_preorder`.
-/

namespace TypedHeap.Session

open Heap

variable {s : Session} {a b c : TypeRef}

theorem Reachable.rising (hs : Reachable s) : s.heap.types.Rising := by
  intro t u
  exact TypeTable.Path.rising hs.grown TypeTable.belowAbstract_builtin TypeTable.rising_builtin

/-- In every registry that operations lead to:

* one type is tested to be below another one exactly if that is the first type, if they are the same, or if
  each atom of the one has an atom of the other on its chain of supertypes, at any distance;
* every type is below itself, and what is below a type is below everything that the type is below. -/
theorem Reachable.isa_preorder (hs : Reachable s) (ha : s.heap.types.contains a = true)
    (hb : s.heap.types.contains b = true) (hc : s.heap.types.contains c = true) :
    (∃ r, s.heap.types.isa a b = .ok r ∧
      (r = true ↔ b = Builtin.any ∨ a = b ∨ ∀ x, s.heap.types.Atom [a] x →
        ∃ y, s.heap.types.Atom [b] y ∧ Relation.ReflTransGen s.heap.types.Declares x y)) ∧
    s.heap.types.isa a a = .ok true ∧
    (s.heap.types.isa a b = .ok true → s.heap.types.isa b c = .ok true → s.heap.types.isa a c = .ok true) := by
  have htypes := hs.sound.heap.registry.types
  have hbelow : s.heap.types.BelowAbstract := hs.belowAbstract
  have hrising : s.heap.types.Rising := hs.rising
  exact ⟨(TypeTable.isa_decides htypes hs.ordered hbelow ha hb).congr (TypeTable.below_iff htypes hrising),
    s.heap.types.isa_self a, TypeTable.isa_trans htypes hs.ordered hbelow hrising ha hb hc⟩

/-- An abstract type, an abstract type below it and a struct at the bottom. Then a union with the struct in
it, and a union with the type at the top in its place. -/
def ladder : Session :=
  start ⟨64, 4096⟩ .off
    |>.next (.define { name := "Number", kind := .abstract })
    |>.next (.define { name := "Real", kind := .abstract, supertype := tier 0 })
    |>.next (.define { name := "Ratio", kind := .struct, supertype := tier 1 })
    |>.next (.union [tier 2, Builtin.nothing])
    |>.next (.union [Builtin.nothing, Builtin.char, tier 0])

theorem isa_preorder_ladder :
    Reachable ladder ∧ ladder.heap.types.contains (tier 2) = true ∧ ladder.heap.types.contains (tier 3) = true ∧
      ladder.heap.types.contains (tier 4) = true ∧ ladder.heap.types.isa (tier 2) (tier 3) = .ok true ∧
      ladder.heap.types.isa (tier 3) (tier 4) = .ok true ∧ ladder.heap.types.isa (tier 4) (tier 3) = .ok false ∧
      ladder.heap.types.isa (tier 2) (tier 4) = .ok true := by
  have h₀ : Reachable (start ⟨64, 4096⟩ .off) := reachable_start _ _
  have h₁ := h₀.next (.define { name := "Number", kind := .abstract }) (allows_of_none rfl)
  have h₂ := h₁.next (.define { name := "Real", kind := .abstract, supertype := tier 0 }) (allows_of_none rfl)
  have h₃ := h₂.next (.define { name := "Ratio", kind := .struct, supertype := tier 1 }) (allows_of_none rfl)
  have h₄ := h₃.next (.union [tier 2, Builtin.nothing]) (allows_of_none rfl)
  have h₅ : Reachable ladder := h₄.next (.union [Builtin.nothing, Builtin.char, tier 0]) (allows_of_none rfl)
  have hbottom : ladder.heap.types.contains (tier 2) = true := by decide +kernel
  have hmiddle : ladder.heap.types.contains (tier 3) = true := by decide +kernel
  have htop : ladder.heap.types.contains (tier 4) = true := by decide +kernel
  have hlower : ladder.heap.types.isa (tier 2) (tier 3) = .ok true := by decide +kernel
  have hupper : ladder.heap.types.isa (tier 3) (tier 4) = .ok true := by decide +kernel
  exact ⟨h₅, hbottom, hmiddle, htop, hlower, hupper, by decide +kernel,
    (h₅.isa_preorder hbottom hmiddle htop).2.2 hlower hupper⟩

end TypedHeap.Session
