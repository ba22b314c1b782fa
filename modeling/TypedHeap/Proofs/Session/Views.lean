import TypedHeap.Proofs.Array.Views
import TypedHeap.Proofs.Session.Lists

/-!
# Views along a run

An array is reshaped, its views are reshaped, and so on. All arrays of such a group are one list, and what is
stored through one of them is there in all of them, for the rest of the run. None of them can be resized.

* `Operation.keeps_shared`: an operation leaves the words of an array that shares its buffer as they are.
* `Session.Viewed`, `Session.Linked`: what was reshaped in the past.

Main result: `Session.Reachable.views_agree`.
-/

namespace TypedHeap

open TypedHeap.Action (Meets Ends)
open Heap ArrayObject

variable {h : Heap} {a b v : Value} {f g : ArrayInfo} {α : Type}

/-- An edit of an array that shares its buffer writes to the buffer only, or is refused. -/
theorem Operation.keeps_edited {e : Edit} (hs : h.Sound) (o : Operation α) (ha : h.IsArray a f)
    (hshared : f.flags.isShared = true) (he : o.edit? h = some (a, e)) (haddr : o.Addresses h a 0) :
    (o.perform.runOn h).2.IsArray a f := by
  cases o with
  | elementWrite c i x => exact absurd haddr (not_bufferOf hs ha c)
  | elementWriteScalar c i k x => exact absurd haddr (not_bufferOf hs ha c)
  | resize c n =>
    cases he
    obtain ⟨error, hrun⟩ := runOn_resize_shared hs ha hshared n.toNat
    rw [show (Operation.resize a n).perform.runOn h = _ from hrun]
    exact ha
  | push c x =>
    cases he
    obtain ⟨error, hrun⟩ := runOn_push_shared hs ha hshared x
    rw [show (Operation.push a x).perform.runOn h = _ from hrun]
    exact ha
  | setArgument ts w i x =>
    obtain ⟨args, -, hargs⟩ := haddr
    exact absurd hargs (not_bufferOf hs ha args)
  | pushArgument ts w x =>
    obtain ⟨args, hargs, heq⟩ := Option.map_eq_some_iff.1 he
    cases heq
    have hl := (Nodes.argumentVector_meets (h := h) ts w).kept
    rcases hvector : (Nodes.argumentVector ts w).runOn h with ⟨r | b, h₁⟩
    · rw [hvector] at hargs
      cases hargs
    · rw [hvector] at hargs hl
      cases hargs
      have ha₁ := hs.isArray_learns ha hl
      obtain ⟨error, hpush⟩ := runOn_push_shared (hs.learns hl) ha₁ hshared x
      have hrun : (Operation.pushArgument ts w x).perform.runOn h = (.error error, h₁) :=
        (Action.runOn_bind_ok hvector).trans hpush
      rw [hrun]
      exact ha₁
  | _ => cases he

/-- An operation leaves the words of an array that shares its buffer as they are. -/
theorem Operation.keeps_shared (hs : h.Sound) (o : Operation α) (hb : ∀ b, o.builder? = some b → b.Holds h)
    (ha : h.IsArray a f) (hshared : f.flags.isShared = true) : (o.perform.runOn h).2.IsArray a f := by
  by_cases hopen : ∀ j, o.Addresses h a j ∨ ¬h.Live a
  · have haddr : o.Addresses h a 0 := (hopen 0).resolve_right fun hdead => hdead ha.live
    rcases edit_of_addresses hs hb ha haddr with ⟨e, he⟩ | hlo
    · exact o.keeps_edited hs ha hshared he haddr
    · exact absurd hlo (by decide)
  · exact Trail.isArray_shared (o.perform_meets hs hb).kept hs ha hshared (not_forall.1 hopen)

namespace Session

variable {s t : Session}

/-- An array that shares its buffer has the same words for the rest of a run. -/
theorem Leads.isArray_shared (h : Leads s t) (hs : s.Sound) (ha : s.heap.IsArray a f)
    (hshared : f.flags.isShared = true) : t.heap.IsArray a f := by
  induction h with
  | refl => exact ha
  | next before o allowed ih =>
    have hsound := before.sound hs
    rw [next_heap]
    exact o.keeps_shared hsound.heap (fun b hb => hsound.builders b (allowed b hb)) ih hshared

/-! ## Groups of views -/

/-- At some moment before `s` somebody reshaped an array, and got a view of it. -/
def Viewed (s : Session) (a v : Value) : Prop :=
  ∃ dims s₀, Reachable s₀ ∧ ((Operation.reshape a dims).perform.runOn s₀.heap).1 = .ok v ∧
    Leads (s₀.next (.reshape a dims)) s

/-- Two arrays are connected by views, and views of views, in whatever direction. -/
def Linked (s : Session) : Value → Value → Prop := Relation.TransGen fun a b => s.Viewed a b ∨ s.Viewed b a

/-- An array and its view know that they share their buffer. -/
theorem Viewed.shares (hv : s.Viewed a v) : ∃ f g, s.heap.IsArray a f ∧ s.heap.IsArray v g ∧ f.Shares g := by
  obtain ⟨dims, s₀, hs₀, hanswer, hleads⟩ := hv
  have hsound := hs₀.sound
  have hready : Ready (fun _ _ => True) s₀.heap := ⟨hsound.heap, fun _ _ => trivial⟩
  have hdims : ∀ d ∈ dims.map UInt64.toNat, d < 0x10000000000000000 := Operation.toNat_lt
  have hmeets := reshape_meets (a := a) hready (fun _ _ _ _ => trivial) hdims
  obtain ⟨-, f, -, ha, hview⟩ := hmeets.answer v hanswer
  have hnext := (hs₀.next (.reshape a dims) (allows_of_none rfl)).sound
  have hheap : (s₀.next (.reshape a dims)).heap = _ := next_heap s₀ (.reshape a dims)
  refine ⟨shared f, viewOf f (dims.map UInt64.toNat), hleads.isArray_shared hnext ?_ rfl,
    hleads.isArray_shared hnext ?_ rfl, ⟨rfl, rfl, ⟨rfl, rfl, rfl, rfl, rfl, rfl⟩⟩⟩
  · rw [hheap]
    exact ha
  · rw [hheap]
    exact hview

/-- By induction on the connection. -/
theorem Linked.shares (hl : s.Linked a b) : ∃ f g, s.heap.IsArray a f ∧ s.heap.IsArray b g ∧ f.Shares g := by
  have hlink {a b : Value} (hab : s.Viewed a b ∨ s.Viewed b a) :
      ∃ f g, s.heap.IsArray a f ∧ s.heap.IsArray b g ∧ f.Shares g := by
    rcases hab with hab | hba
    · exact hab.shares
    · obtain ⟨f, g, hb, ha, hshares⟩ := hba.shares
      exact ⟨g, f, ha, hb, hshares.symm⟩
  induction hl with
  | single hab => exact hlink hab
  | tail _ hbc ih =>
    obtain ⟨f, g, ha, hb, hfg⟩ := ih
    obtain ⟨g', e, hb', hc, hge⟩ := hlink hbc
    rw [hb.unique hb'] at hge
    exact ⟨f, e, ha, hc, hfg.trans hge⟩

/-! ## Views agree -/

/-- Arrays that share a buffer are the same list, before and after it was changed through one of them. -/
theorem lists_of_shares {xs : List (Option Datum)} (hs : h.Sound) (ha : h.IsArray a f) (hb : h.IsArray b g)
    (hshares : f.Shares g) (hx : h.Holds f xs) : Lists h b xs :=
  lists_of_sameBody hs ha hb hshares.body (lists_of_holds hs ha hx)

/-- Sharing is kept by every operation. -/
theorem Sound.shares_next (hs : s.Sound) (o : Operation α) (ha : s.heap.IsArray a f) (hb : s.heap.IsArray b g)
    (hshares : f.Shares g) (ho : o.builder? = none) {r : Except Error α} {h : Heap}
    (hrun : o.perform.runOn s.heap = (r, h)) : h.Sound ∧ h.IsArray a f ∧ h.IsArray b g := by
  have hleads : Leads s (s.next o) := .next .refl o (allows_of_none ho)
  obtain rfl : (s.next o).heap = h := by rw [next_heap, hrun]
  exact ⟨(hleads.sound hs).heap, hleads.isArray_shared hs ha hshares.left, hleads.isArray_shared hs hb hshares.right⟩

/-- In every heap that operations lead to, different arrays with the same buffer are both marked as shared, and
agree in the element type, in how elements are stored and how wide a slot is, in the length and the capacity, and
in the owner. So of any two arrays that reshaping has linked in the past:

* they have the same elements, and the same indices without one;
* what is stored through one of them, be it a value or a scalar, is the element of the other one from then on,
  whose other elements stay what they were;
* neither can be resized or appended to, and trying to changes nothing. -/
theorem Reachable.views_agree (hs : Reachable s) :
    (∀ a b f g, a ≠ b → info s.heap a = .ok f → info s.heap b = .ok g → g.buffer = f.buffer →
      f.Shares g ∧ owner s.heap b = owner s.heap a) ∧
    ∀ a b, s.Linked a b →
      (∀ i, (Operation.elementRead b i).perform.runOn s.heap = (Operation.elementRead a i).perform.runOn s.heap) ∧
      (∀ i x h, (Operation.elementWrite a i x).perform.runOn s.heap = (.ok ⟨⟩, h) →
        ∃ xs elem d, Lists s.heap b xs ∧ i < xs.length ∧ elementType s.heap b = .ok elem ∧ h.Stores elem x d ∧
          Lists h b (xs.set i (some d))) ∧
      (∀ i k c h, (Operation.elementWriteScalar a i k c).perform.runOn s.heap = (.ok ⟨⟩, h) →
        ∃ xs d, Lists s.heap b xs ∧ i < xs.length ∧ Datum.Encodes h k c d ∧ Lists h b (xs.set i (some d))) ∧
      (∀ n, ∃ e, (Operation.resize a n).perform.runOn s.heap = (.error e, s.heap)) ∧
      ∀ x, ∃ e, (Operation.push a x).perform.runOn s.heap = (.error e, s.heap) := by
  have hsound := hs.sound
  refine ⟨fun a b f g hne hf hg hbuffer => ?_, fun a b hl => ?_⟩
  · have ha := hsound.heap.info_iff.1 hf
    have hb := hsound.heap.info_iff.1 hg
    refine ⟨(hsound.heap.sharing ha hb hbuffer).resolve_left (Ne.symm hne), ?_⟩
    rw [hsound.heap.owner_eq ha, hsound.heap.owner_eq hb, hbuffer]
  obtain ⟨f, g, ha, hb, hshares⟩ := hl.shares
  obtain ⟨xs, hx⟩ := exists_holds (hsound.heap.arrays ha).body
  have hlists : Lists s.heap b xs := lists_of_shares hsound.heap ha hb hshares hx
  refine ⟨fun i => ?_, fun i x h hrun => ?_, fun i k c h hrun => ?_, fun n => ?_, fun x => ?_⟩
  · exact (hlists.get i).trans ((lists_of_holds hsound.heap ha hx).get i).symm
  · obtain ⟨hi, -, d, hstores, hx'⟩ := (set_ends hsound.heap ha hx i x).answer _ h hrun
    obtain ⟨hsound', ha', hb'⟩ := hsound.shares_next _ ha hb hshares rfl hrun
    refine ⟨xs, f.elem, d, hlists, by rwa [hx.length], ?_, hstores, lists_of_shares hsound' ha' hb' hshares hx'⟩
    rw [elementType, hsound.heap.info_iff.2 hb, ← hshares.body.elem]
    rfl
  · obtain ⟨hi, d, hencodes, hx'⟩ := (setScalar_ends hsound.heap ha hx i k c).answer _ h hrun
    obtain ⟨hsound', ha', hb'⟩ := hsound.shares_next _ ha hb hshares rfl hrun
    exact ⟨xs, d, hlists, by rwa [hx.length], hencodes, lists_of_shares hsound' ha' hb' hshares hx'⟩
  · exact runOn_resize_shared hsound.heap ha hshares.left n.toNat
  · exact runOn_push_shared hsound.heap ha hshares.left x

/-- Two numbers in a row, seen as a column, which is seen as a row again. -/
def turned : Session :=
  numbers
    |>.next (.reshape (object 64) [2, 1])
    |>.next (.reshape (object 128) [1, 2])

/-- The number in the box is stored through the last view, and is the element of the vector. -/
theorem views_agree_turned :
    Reachable turned ∧ turned.Linked (object 192) (object 64) ∧
      (∃ h, (Operation.elementWrite (object 192) 1 (object 16)).perform.runOn turned.heap = (.ok ⟨⟩, h) ∧
        ∃ xs elem d, Lists turned.heap (object 64) xs ∧ 1 < xs.length ∧
          elementType turned.heap (object 64) = .ok elem ∧ h.Stores elem (object 16) d ∧
            Lists h (object 64) (xs.set 1 (some d))) ∧
      ∃ e, (Operation.push (object 192) (object 16)).perform.runOn turned.heap = (.error e, turned.heap) := by
  have h₀ : Reachable numbers := ((reachable_start _ _).next _ (by nofun)).next _ (by nofun)
  have h₁ := h₀.next (.reshape (object 64) [2, 1]) (allows_of_none rfl)
  have h₂ : Reachable turned := h₁.next (.reshape (object 128) [1, 2]) (allows_of_none rfl)
  have hfirst : turned.Viewed (object 64) (object 128) :=
    ⟨[2, 1], numbers, h₀, by decide +kernel, .next .refl _ (allows_of_none rfl)⟩
  have hsecond : turned.Viewed (object 128) (object 192) := ⟨[1, 2], _, h₁, by decide +kernel, .refl⟩
  have hlinked : turned.Linked (object 192) (object 64) :=
    .head (.inr hsecond) (.single (.inr hfirst))
  obtain ⟨-, hset, -, -, hpush⟩ := h₂.views_agree.2 _ _ hlinked
  have hstored : ((Operation.elementWrite (object 192) 1 (object 16)).perform.runOn turned.heap).1 = .ok ⟨⟩ := by
    decide +kernel
  rcases hrun : (Operation.elementWrite (object 192) 1 (object 16)).perform.runOn turned.heap with ⟨r, h⟩
  rw [hrun] at hstored
  obtain rfl : r = .ok ⟨⟩ := hstored
  exact ⟨h₂, hlinked, ⟨h, rfl, hset _ _ h hrun⟩, hpush _⟩

end Session

end TypedHeap
