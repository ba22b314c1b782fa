import Mathlib.Data.List.Nodup
import Mathlib.Logic.Relation

/-!
# Depth-first order

The order of a recursive traversal that skips what it has visited before: a vertex comes first, then
what lies below its successors, from left to right. Successors are given as a list for each vertex, and
may be shared or lead back.

* `Preorder next seen todo order`: visiting `todo` after `seen` visits `order`.

Main results: `Preorder.unique`, `Preorder.exists_order`, `Preorder.mem_iff`, and `Preorder.uncons`, by which
a traversal may keep all that is still to be visited on one stack.
-/

namespace TypedHeap

variable {α : Type} {next : α → List α} {seen todo rest order o₁ o₂ : List α} {v w : α} {P : α → Prop}

/-- A traversal that has visited `seen` and then visits `todo`, one after the other, visits `order`. A
vertex is followed by its successors, and these by what was to be visited after the vertex. -/
inductive Preorder (next : α → List α) : List α → List α → List α → Prop
  | done {seen : List α} : Preorder next seen [] []
  | skip {seen rest order : List α} {v : α} (known : v ∈ seen) (others : Preorder next seen rest order) :
      Preorder next seen (v :: rest) order
  | visit {seen rest below order : List α} {v : α} (new : v ∉ seen)
      (children : Preorder next (v :: seen) (next v) below)
      (others : Preorder next (below.reverse ++ v :: seen) rest order) :
      Preorder next seen (v :: rest) (v :: (below ++ order))

namespace Preorder

/-- There is one order only. -/
theorem unique (h₁ : Preorder next seen todo o₁) (h₂ : Preorder next seen todo o₂) : o₁ = o₂ := by
  induction h₁ generalizing o₂ with
  | done =>
    cases h₂
    rfl
  | skip known _ ih =>
    cases h₂ with
    | skip _ others => exact ih others
    | visit new _ _ => exact absurd known new
  | visit new _ _ ihc iho =>
    cases h₂ with
    | skip known _ => exact absurd known new
    | visit _ children others =>
      cases ihc children
      cases iho others
      rfl

/-- One traversal after the other. -/
theorem append (h₁ : Preorder next seen todo o₁) (h₂ : Preorder next (o₁.reverse ++ seen) rest o₂) :
    Preorder next seen (todo ++ rest) (o₁ ++ o₂) := by
  induction h₁ with
  | done => exact h₂
  | skip known _ ih => exact .skip known (ih h₂)
  | @visit seen todo below order v new children _ _ iho =>
    rw [List.reverse_cons, List.reverse_append, List.append_assoc, List.append_assoc] at h₂
    rw [List.cons_append, List.cons_append, List.append_assoc]
    exact .visit new children (iho h₂)

/-! ## What is visited -/

/-- Nothing is visited twice. -/
theorem nodup (h : Preorder next seen todo order) : order.Nodup ∧ ∀ w ∈ order, w ∉ seen := by
  induction h with
  | done => exact ⟨.nil, nofun⟩
  | skip _ _ ih => exact ih
  | @visit seen todo below order v new children others ihc iho =>
    have hbelow : ∀ w ∈ below, w ≠ v ∧ w ∉ seen := fun w hw => by
      simpa using ihc.2 w hw
    have horder : ∀ w ∈ order, w ∉ below ∧ w ≠ v ∧ w ∉ seen := fun w hw => by
      simpa using iho.2 w hw
    refine ⟨List.nodup_cons.2 ⟨fun hv => ?_, ?_⟩, fun w hw => ?_⟩
    · rcases List.mem_append.1 hv with hv | hv
      · exact (hbelow v hv).1 rfl
      · exact (horder v hv).2.1 rfl
    · exact List.nodup_append'.2 ⟨ihc.1, iho.1, fun w hw hw' => (horder w hw').1 hw⟩
    · rcases List.mem_cons.1 hw with rfl | hw
      · exact new
      · rcases List.mem_append.1 hw with hw | hw
        · exact (hbelow w hw).2
        · exact (horder w hw).2.2

/-- What holds of all that was to be visited, and of the successors of whatever it holds of. -/
theorem forall_mem (h : Preorder next seen todo order) (htodo : ∀ w ∈ todo, P w)
    (hnext : ∀ v, P v → ∀ w ∈ next v, P w) : ∀ w ∈ order, P w := by
  induction h with
  | done => exact nofun
  | skip _ _ ih => exact ih fun w hw => htodo w (List.mem_cons_of_mem _ hw)
  | @visit seen todo below order v new children others ihc iho =>
    obtain ⟨hv, hrest⟩ := List.forall_mem_cons.1 htodo
    exact List.forall_mem_cons.2 ⟨hv, List.forall_mem_append.2 ⟨ihc (hnext v hv), iho hrest⟩⟩

/-- All that was to be visited, and all successors of what was visited, are visited at the end. -/
theorem closed (h : Preorder next seen todo order) : (∀ w ∈ todo, w ∈ seen ∨ w ∈ order) ∧
    ∀ v ∈ order, ∀ w ∈ next v, w ∈ seen ∨ w ∈ order := by
  induction h with
  | done => exact ⟨nofun, nofun⟩
  | skip known _ ih => exact ⟨List.forall_mem_cons.2 ⟨.inl known, ih.1⟩, ih.2⟩
  | @visit seen todo below order v new children others ihc iho =>
    have hchild {w : α} (hw : w ∈ v :: seen ∨ w ∈ below) : w ∈ seen ∨ w ∈ v :: (below ++ order) := by
      simp only [List.mem_cons, List.mem_append] at hw ⊢
      tauto
    have hother {w : α} (hw : w ∈ below.reverse ++ v :: seen ∨ w ∈ order) :
        w ∈ seen ∨ w ∈ v :: (below ++ order) := by
      simp only [List.mem_cons, List.mem_append, List.mem_reverse] at hw ⊢
      tauto
    refine ⟨List.forall_mem_cons.2 ⟨.inr List.mem_cons_self, fun w hw => hother (iho.1 w hw)⟩, ?_⟩
    rw [List.forall_mem_cons, List.forall_mem_append]
    exact ⟨fun w hw => hchild (ihc.1 w hw), fun u hu w hw => hchild (ihc.2 u hu w hw),
      fun u hu w hw => hother (iho.2 u hu w hw)⟩

/-- From one vertex, exactly what can be reached is visited. -/
theorem mem_iff (h : Preorder next [] [v] order) :
    w ∈ order ↔ Relation.ReflTransGen (fun a b => b ∈ next a) v w := by
  constructor
  · refine h.forall_mem ?_ (fun a ha b hb => ha.tail hb) w
    exact List.forall_mem_singleton.2 .refl
  · intro hreach
    obtain ⟨htodo, hnext⟩ := h.closed
    induction hreach with
    | refl => exact (htodo v List.mem_cons_self).resolve_left List.not_mem_nil
    | tail _ hstep ih => exact (hnext _ ih _ hstep).resolve_left List.not_mem_nil

/-! ## The traversal ends -/

/-- There is an order if there are at most `n` vertices. By induction on the number `k` of those that were not
visited yet. -/
theorem exists_order {n k : Nat} (hbound : ∀ vs : List α, vs.Nodup → (∀ v ∈ vs, P v) → vs.length ≤ n)
    (hnext : ∀ v, P v → ∀ w ∈ next v, P w) (hk : n ≤ seen.length + k) (hnodup : seen.Nodup)
    (hseen : ∀ v ∈ seen, P v) (htodo : ∀ v ∈ todo, P v) : ∃ order, Preorder next seen todo order := by
  induction k generalizing seen todo with
  | zero =>
    induction todo with
    | nil => exact ⟨[], .done⟩
    | cons v todo ih =>
      obtain ⟨hv, hrest⟩ := List.forall_mem_cons.1 htodo
      obtain ⟨order, horder⟩ := ih hrest
      refine ⟨order, .skip (by_contra fun hnew => ?_) horder⟩
      have hle := hbound (v :: seen) (List.nodup_cons.2 ⟨hnew, hnodup⟩) (List.forall_mem_cons.2 ⟨hv, hseen⟩)
      rw [List.length_cons] at hle
      omega
  | succ k ihk =>
    induction todo generalizing seen with
    | nil => exact ⟨[], .done⟩
    | cons v todo ih =>
      obtain ⟨hv, hrest⟩ := List.forall_mem_cons.1 htodo
      by_cases hnew : v ∈ seen
      · obtain ⟨order, horder⟩ := ih hk hnodup hseen hrest
        exact ⟨order, .skip hnew horder⟩
      · obtain ⟨below, hbelow⟩ := @ihk (v :: seen) _ (by rw [List.length_cons]; omega)
          (List.nodup_cons.2 ⟨hnew, hnodup⟩) (List.forall_mem_cons.2 ⟨hv, hseen⟩) (hnext v hv)
        obtain ⟨hdistinct, hapart⟩ := hbelow.nodup
        obtain ⟨order, horder⟩ := @ihk (below.reverse ++ v :: seen) _
          (by rw [List.length_append, List.length_cons]; omega)
          (List.nodup_append'.2 ⟨List.nodup_reverse.2 hdistinct, List.nodup_cons.2 ⟨hnew, hnodup⟩,
            fun w hw hw' => hapart w (List.mem_reverse.1 hw) hw'⟩)
          (List.forall_mem_append.2 ⟨fun w hw => hbelow.forall_mem (hnext v hv) hnext w (List.mem_reverse.1 hw),
            List.forall_mem_cons.2 ⟨hv, hseen⟩⟩) hrest
        exact ⟨_, .visit hnew hbelow horder⟩

/-! ## One stack -/

/-- The first vertex of an order is the first one in `todo` that was not visited before, and what follows is
the order of its successors in front of the others. -/
theorem uncons [BEq α] [LawfulBEq α] (h : Preorder next seen todo order) :
    (todo.dropWhile (seen.contains ·) = [] ∧ order = []) ∨
      ∃ v rest later, todo.dropWhile (seen.contains ·) = v :: rest ∧ order = v :: later ∧
        Preorder next (v :: seen) (next v ++ rest) later := by
  induction h with
  | done => exact .inl ⟨rfl, rfl⟩
  | skip known _ ih => rwa [List.dropWhile_cons_of_pos (List.contains_iff_mem.2 known)]
  | @visit seen todo below order v new children others _ _ =>
    refine .inr ⟨v, todo, below ++ order, ?_, rfl, children.append others⟩
    exact List.dropWhile_cons_of_neg fun hmem => new (List.contains_iff_mem.1 hmem)

end Preorder

end TypedHeap
