import Mathlib.Data.List.Sort
import Mathlib.Data.Prod.Lex
import Mathlib.Data.String.Basic
import TypedHeap.Types.Apply

/-!
# Union members in order

The members of a union are put in order one by one, each at its place among those that are in order
already. What comes out depends on which members there are, and on nothing else.

* `Member.before_trans`, `Member.before_total`: the order of members is a strict order, and puts any two
  of them that stand for different types in order.
* `Member.Agree`: members that stand for the same type have the same text.

Main results: `sorted_members`, `mem_sorted`, `sorted_congr`.
-/

namespace TypedHeap.TypeTable

/-! ## The order of members -/

namespace Member

variable {m n k : Member}

/-- Members are compared by text first and by number second. -/
theorem before_iff : m.before n = true ↔ toLex (m.text, m.ref.index) < toLex (n.text, n.ref.index) := by
  simp [before, Prod.Lex.toLex_lt_toLex]

theorem before_irrefl (m : Member) : ¬m.before m = true := by
  rw [before_iff]
  exact lt_irrefl _

theorem before_trans (h : m.before n = true) (h' : n.before k = true) : m.before k = true := by
  rw [before_iff] at *
  exact h.trans h'

theorem before_total (hne : m.ref ≠ n.ref) : m.before n = true ∨ n.before m = true := by
  rw [before_iff, before_iff]
  refine lt_or_gt_of_ne fun heq => hne (TypeRef.ext ?_)
  exact (Prod.mk.inj (toLex_inj.1 heq)).2

instance : Std.Irrefl fun m n : Member => m.before n = true := ⟨before_irrefl⟩

instance : Std.Antisymm fun m n : Member => m.before n = true :=
  ⟨fun _ _ h h' => absurd (before_trans h h') (before_irrefl _)⟩

/-- Members that stand for the same type are the same member. -/
def Agree (ms : List Member) : Prop := ∀ m ∈ ms, ∀ n ∈ ms, m.ref = n.ref → m = n

end Member

open Member (Agree before_irrefl before_trans before_total)

/-! ## Putting members in order -/

variable {m n : Member} {ms ns : List Member}

theorem mem_insertMember (h : ∀ k ∈ ms, m.ref = k.ref → m = k) :
    n ∈ insertMember m ms ↔ n = m ∨ n ∈ ms := by
  induction ms with
  | nil => exact List.mem_cons
  | cons k ms ih =>
    rw [List.forall_mem_cons] at h
    unfold insertMember
    split
    · rename_i heq
      rw [h.1 heq, List.mem_cons, ← or_assoc, or_self]
    · split
      · exact List.mem_cons
      · rw [List.mem_cons, ih h.2, List.mem_cons, or_left_comm]

theorem sorted_insertMember (hms : ms.Pairwise fun a b => a.before b = true)
    (h : ∀ k ∈ ms, m.ref = k.ref → m = k) :
    (insertMember m ms).Pairwise fun a b => a.before b = true := by
  induction ms with
  | nil => exact List.pairwise_singleton _ m
  | cons k ms ih =>
    have hcons := hms
    rw [List.pairwise_cons] at hms
    rw [List.forall_mem_cons] at h
    unfold insertMember
    split
    · exact hcons
    · rename_i hne
      split
      · rename_i hbefore
        refine List.pairwise_cons.2 ⟨List.forall_mem_cons.2 ⟨hbefore, fun n hn => ?_⟩, hcons⟩
        exact before_trans hbefore (hms.1 n hn)
      · rename_i hbefore
        refine List.pairwise_cons.2 ⟨fun n hn => ?_, ih hms.2 h.2⟩
        rcases (mem_insertMember h.2).1 hn with rfl | hn
        · exact (before_total hne).resolve_left hbefore
        · exact hms.1 n hn

/-- Putting members in order loses none and adds none. -/
theorem mem_sorted (h : Agree ms) : n ∈ ms.foldr insertMember [] ↔ n ∈ ms := by
  induction ms generalizing n with
  | nil => exact Iff.rfl
  | cons m ms ih =>
    have htail : Agree ms := fun k hk l hl => h k (List.mem_cons_of_mem m hk) l (List.mem_cons_of_mem m hl)
    rw [List.foldr_cons, mem_insertMember, ih htail, List.mem_cons]
    exact fun k hk => h m List.mem_cons_self k (List.mem_cons_of_mem m ((ih htail).1 hk))

theorem sorted_members (h : Agree ms) :
    (ms.foldr insertMember []).Pairwise fun a b => a.before b = true := by
  induction ms with
  | nil => exact .nil
  | cons m ms ih =>
    have htail : Agree ms := fun k hk l hl => h k (List.mem_cons_of_mem m hk) l (List.mem_cons_of_mem m hl)
    refine sorted_insertMember (ih htail) fun k hk => ?_
    exact h m List.mem_cons_self k (List.mem_cons_of_mem m ((mem_sorted htail).1 hk))

/-- The same members come out in the same order. -/
theorem sorted_congr (hms : Agree ms) (hns : Agree ns) (h : ∀ m, m ∈ ms ↔ m ∈ ns) :
    ms.foldr insertMember [] = ns.foldr insertMember [] :=
  (sorted_members hms).eq_of_mem_iff (sorted_members hns) fun m => by
    rw [mem_sorted hms, mem_sorted hns, h m]

/-- Members that are in order are left as they are. -/
theorem sorted_eq_self (h : ms.Pairwise fun a b => a.before b = true) (hagree : Agree ms) :
    ms.foldr insertMember [] = ms :=
  (sorted_members hagree).eq_of_mem_iff h fun _ => mem_sorted hagree

end TypedHeap.TypeTable
