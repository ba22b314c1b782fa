import TypedHeap.Array.Basic
import TypedHeap.Proofs.Heap.Learns

/-!
# How the elements of an array are stored

The way elements are stored and the bytes of a slot are decided by the element type, once and for all:
the layouts that decide it are remembered.

* `Registry.Stored`: how elements of a type are stored, as far as the registry knows.
* `ArrayObject.elementStorage_meets`: whoever asks finds out.
* `ArrayObject.runOn_elementStorage`: whoever asks again gets the same answer.

Also here: `Stored.slotSize_lt` and `Stored.member_le`, the bounds on slots, and `Registry.Selector`, the
bytes that name members of a union.
-/

namespace TypedHeap

open TypedHeap.Action (Meets)

namespace Registry

variable {r r' : Registry} {t elem : TypeRef} {ts members : List TypeRef}

/-! ## The width of unions -/

/-- The bytes of the widest of some types, if all of them are stored inline. -/
inductive Widest (r : Registry) : List TypeRef → Option Nat → Prop
  | nil : Widest r [] (some 0)
  | inline {t : TypeRef} {ts : List TypeRef} {n : Nat} {width : Option Nat}
      (inline : r.Inline t true) (size : r.Sized t n) (rest : Widest r ts width) :
      Widest r (t :: ts) (width.map (max n))
  | outside {t : TypeRef} {ts : List TypeRef} (outside : r.Inline t false) : Widest r (t :: ts) none

/-- The bytes of a slot for a union's elements, given the width of its members, if they are stored in
place. -/
def unionSlot (members : List TypeRef) : Option Nat → Option Nat
  | some width =>
    if members ≠ [] ∧ members.length ≤ ArrayObject.maxMembers ∧ width < ArrayFlags.fieldLimit then
      some width
    else none
  | none => none

theorem Widest.extends {width : Option Nat} (h : r.Widest ts width) (hext : r.Extends r') :
    r'.Widest ts width := by
  induction h with
  | nil => exact .nil
  | inline inline size _ ih => exact .inline (inline.extends hext) (size.extends hext) ih
  | outside outside => exact .outside (outside.extends hext)

/-- The members are bits, and none is wider than the widest. -/
theorem Widest.member_le {width : Nat} (h : r.Widest ts (some width)) (ht : t ∈ ts) :
    ∃ l, r.layouts.find? t = some l ∧ l.isBits = true ∧ l.size ≤ width := by
  generalize hw : some width = w at h
  induction h generalizing width with
  | nil => cases ht
  | @inline s ts n w inline size rest ih =>
    cases w with
    | none => cases hw
    | some k =>
      have hk : width = max n k := Option.some.inj hw
      rcases List.mem_cons.1 ht with rfl | ht
      · obtain ⟨l, hl, hbits⟩ := Layouts.Inline.find? inline
        obtain ⟨l', hl', rfl⟩ := size
        rw [hl] at hl'
        cases hl'
        exact ⟨l, hl, hbits, by omega⟩
      · obtain ⟨l, hl, hbits, hle⟩ := ih ht rfl
        exact ⟨l, hl, hbits, by omega⟩
  | outside _ => cases hw

theorem of_unionSlot {w : Option Nat} {width : Nat} (h : unionSlot members w = some width) :
    members ≠ [] ∧ members.length ≤ ArrayObject.maxMembers ∧ w = some width ∧
      width < ArrayFlags.fieldLimit := by
  unfold unionSlot at h
  split at h
  · split at h
    · rename_i hall
      cases h
      exact ⟨hall.1, hall.2.1, rfl, hall.2.2⟩
    · cases h
  · cases h

/-! ## Storage -/

/-- Elements are not stored as plain bits: they may hold references, or they are too wide. -/
def NotFlat (r : Registry) (elem : TypeRef) : Prop :=
  r.Inline elem false ∨
    r.Inline elem true ∧ ∃ n, r.Sized elem n ∧ ¬n < ArrayFlags.fieldLimit

/-- How elements of a type are stored, and the bytes of one slot. -/
inductive Stored (r : Registry) (elem : TypeRef) : ElementStorage → Nat → Prop
  | flat {n : Nat} (inline : r.Inline elem true) (size : r.Sized elem n)
      (small : n < ArrayFlags.fieldLimit) : Stored r elem .flat n
  | selected {d : Descriptor} {w : Option Nat} {width : Nat} (wide : r.NotFlat elem)
      (descriptor : r.table.descriptor elem = .ok d) (union : d.kind = .union)
      (widest : r.Widest d.memberTypes w) (inPlace : unionSlot d.memberTypes w = some width) :
      Stored r elem .selected width
  | references {d : Descriptor} (wide : r.NotFlat elem) (descriptor : r.table.descriptor elem = .ok d)
      (other : d.kind = .union → ∃ w, r.Widest d.memberTypes w ∧ unionSlot d.memberTypes w = none) :
      Stored r elem .references refSize

theorem NotFlat.extends (h : r.NotFlat elem) (hext : r.Extends r') : r'.NotFlat elem := by
  rcases h with h | ⟨h, n, hn, hlt⟩
  · exact .inl (h.extends hext)
  · exact .inr ⟨h.extends hext, n, hn.extends hext, hlt⟩

section Stored

variable {storage : ElementStorage} {slotSize : Nat}

theorem Stored.extends (h : r.Stored elem storage slotSize) (hext : r.Extends r') :
    r'.Stored elem storage slotSize := by
  cases h with
  | flat inline size small => exact .flat (inline.extends hext) (size.extends hext) small
  | selected wide hd union widest inPlace =>
    exact .selected (wide.extends hext) (hext.types.descriptor hd) union (widest.extends hext) inPlace
  | references wide hd other =>
    refine .references (wide.extends hext) (hext.types.descriptor hd) fun hu => ?_
    obtain ⟨w, hw, hnone⟩ := other hu
    exact ⟨w, hw.extends hext, hnone⟩

/-- A slot size fits in the flags word. -/
theorem Stored.slotSize_lt (h : r.Stored elem storage slotSize) : slotSize < ArrayFlags.fieldLimit := by
  cases h with
  | flat _ _ small => exact small
  | selected _ _ _ _ inPlace => exact (of_unionSlot inPlace).2.2.2
  | references => decide

theorem Stored.slotSize_references (h : r.Stored elem .references slotSize) : slotSize = refSize := by
  cases h
  rfl

/-- A slot of plain bits is as wide as the bits. -/
theorem Stored.flat_bits (h : r.Stored elem .flat slotSize) :
    ∃ l, r.layouts.find? elem = some l ∧ l.isBits = true ∧ l.size = slotSize := by
  cases h with
  | flat inline size _ =>
    obtain ⟨l, hl, hbits⟩ := Layouts.Inline.find? inline
    obtain ⟨l', hl', hsize⟩ := size
    rw [hl] at hl'
    cases hl'
    exact ⟨l, hl, hbits, hsize⟩

/-- A byte that says which member of a union an element is. -/
def Selector (r : Registry) (elem : TypeRef) (b : UInt8) : Prop :=
  ∃ d t, r.table.descriptor elem = .ok d ∧ d.memberTypes[b.toNat]? = some t

theorem Selector.extends {b : UInt8} (h : r.Selector elem b) (hext : r.Extends r') : r'.Selector elem b := by
  obtain ⟨d, t, hd, ht⟩ := h
  exact ⟨d, t, hext.types.descriptor hd, ht⟩

/-- Unions whose elements are stored in place have members, and few enough for a byte. -/
theorem Stored.members_bounds {d : Descriptor} (h : r.Stored elem .selected slotSize)
    (hd : r.table.descriptor elem = .ok d) : d.memberTypes ≠ [] ∧ d.memberTypes.length ≤ 255 := by
  cases h with
  | selected _ hd' _ _ inPlace =>
    rw [hd] at hd'
    cases hd'
    obtain ⟨hne, hle, -⟩ := of_unionSlot inPlace
    exact ⟨hne, hle⟩

/-- Zero stands for the first member. -/
theorem Stored.selector_zero (h : r.Stored elem .selected slotSize) : r.Selector elem 0 := by
  have ⟨d, hd⟩ : ∃ d, r.table.descriptor elem = .ok d := by
    cases h with
    | selected _ hd _ _ _ => exact ⟨_, hd⟩
  obtain ⟨hne, -⟩ := h.members_bounds hd
  exact ⟨d, _, hd, List.getElem?_eq_getElem (List.length_pos_iff.2 hne)⟩

/-- The number of a member fits in a byte. -/
theorem Stored.toNat_ofNat {d : Descriptor} {k : Nat} (h : r.Stored elem .selected slotSize)
    (hd : r.table.descriptor elem = .ok d) (ht : d.memberTypes[k]? = some t) : (UInt8.ofNat k).toNat = k := by
  have hlt := (List.getElem?_eq_some_iff.1 ht).1
  have hle := (h.members_bounds hd).2
  exact UInt8.toNat_ofNat_of_lt' (by rw [UInt8.size]; omega)

/-- A slot of a union's elements is wide enough for each member. -/
theorem Stored.member_le {d : Descriptor} (h : r.Stored elem .selected slotSize)
    (hd : r.table.descriptor elem = .ok d) (ht : t ∈ d.memberTypes) :
    ∃ l, r.layouts.find? t = some l ∧ l.isBits = true ∧ l.size ≤ slotSize := by
  cases h with
  | selected _ hd' _ widest inPlace =>
    rw [hd] at hd'
    cases hd'
    rw [(of_unionSlot inPlace).2.2.1] at widest
    exact widest.member_le ht

end Stored

end Registry

open Registry

namespace ArrayObject

open Heap (Learns)

variable {h : Heap} {elem : TypeRef} {members : List TypeRef}

/-! ## Asking -/

theorem widest_meets (ts : List TypeRef) :
    Meets Learns (widest ts) h fun w h' => h'.registry.Widest ts w := by
  induction ts generalizing h with
  | nil => exact Meets.pure .nil
  | cons t ts ih =>
    unfold widest
    refine Meets.bind (Heap.isInline_meets t) fun b h₁ _ hb => ?_
    cases b with
    | false => exact Meets.pure (.outside hb)
    | true =>
      refine Meets.bind (Heap.sizeOf_meets t) fun n h₂ hl₂ hn => ?_
      refine Meets.bind ih fun w h₃ hl₃ hw => Meets.pure ?_
      have hext := hl₃.extends.registry
      exact .inline ((hb.extends hl₂.extends.registry).extends hext) (hn.extends hext) hw

theorem unionSlot_meets (members : List TypeRef) :
    Meets Learns (unionSlot members) h fun s h' =>
      ∃ w, h'.registry.Widest members w ∧ Registry.unionSlot members w = s := by
  unfold unionSlot
  refine Meets.bind (widest_meets members) fun w h' _ hw => ?_
  cases w with
  | none => exact Meets.pure ⟨none, hw, rfl⟩
  | some width =>
    refine Meets.ite (fun hin => Meets.pure ⟨_, hw, ?_⟩) fun hout => Meets.pure ⟨_, hw, ?_⟩
    · exact if_pos hin
    · exact if_neg hout

/-- How elements are stored that are not stored as plain bits. -/
def wideStorage (elem : TypeRef) : HeapM (ElementStorage × Nat) := do
  let d ← (← MonadState.get).types.descriptor elem
  if d.kind = .union then
    match ← unionSlot d.memberTypes with
    | some width => return (.selected, width)
    | none => return (.references, refSize)
  return (.references, refSize)

theorem elementStorage_eq (elem : TypeRef) :
    elementStorage elem = (do
      if ← Heap.isInline elem then
        let size ← Heap.sizeOf elem
        if size < ArrayFlags.fieldLimit then return (.flat, size)
      wideStorage elem) :=
  rfl

theorem wideStorage_meets (hwide : h.registry.NotFlat elem) :
    Meets Learns (wideStorage elem) h fun p h' => h'.registry.Stored elem p.1 p.2 := by
  unfold wideStorage
  refine Meets.get_bind (Meets.lift_bind fun d hd => Meets.ite (fun hunion => ?_) fun hother => ?_)
  · refine Meets.bind (unionSlot_meets d.memberTypes) fun s h₁ hl hs => ?_
    obtain ⟨w, hw, rfl⟩ := hs
    have hext := hl.extends.registry
    have hwide := hwide.extends hext
    have hd := hext.types.descriptor hd
    split
    · rename_i width hwidth
      exact Meets.pure (.selected hwide hd hunion hw hwidth)
    · rename_i hnone
      exact Meets.pure (.references hwide hd fun _ => ⟨w, hw, hnone⟩)
  · exact Meets.pure (.references hwide hd fun hunion => absurd hunion hother)

theorem elementStorage_meets (elem : TypeRef) :
    Meets Learns (elementStorage elem) h fun p h' => h'.registry.Stored elem p.1 p.2 := by
  rw [elementStorage_eq]
  refine Meets.bind (Heap.isInline_meets elem) fun b h₁ _ hb => ?_
  cases b with
  | false => exact wideStorage_meets (.inl hb)
  | true =>
    refine Meets.bind (Heap.sizeOf_meets elem) fun n h₂ hl hn => ?_
    have hb := hb.extends hl.extends.registry
    refine Meets.ite (fun hsmall => Meets.pure (.flat hb hn hsmall)) fun hbig => ?_
    exact wideStorage_meets (.inr ⟨hb, n, hn, hbig⟩)

/-! ## Asking again -/

theorem runOn_widest {ts : List TypeRef} {w : Option Nat} (hs : h.registry.Sound)
    (hw : h.registry.Widest ts w) : (widest ts).runOn h = (.ok w, h) := by
  induction hw with
  | nil => rfl
  | inline inline size _ ih =>
    unfold widest
    rw [Action.runOn_bind_ok (Heap.runOn_isInline inline), if_pos rfl,
      Action.runOn_bind_ok (Heap.runOn_sizeOf hs size), Action.runOn_bind_ok ih]
    rfl
  | outside outside =>
    unfold widest
    rw [Action.runOn_bind_ok (Heap.runOn_isInline outside)]
    rfl

theorem runOn_unionSlot {w : Option Nat} (hs : h.registry.Sound)
    (hw : h.registry.Widest members w) :
    (unionSlot members).runOn h = (.ok (Registry.unionSlot members w), h) := by
  unfold unionSlot
  rw [Action.runOn_bind_ok (runOn_widest hs hw)]
  cases w with
  | none => rfl
  | some width =>
    by_cases hin : members ≠ [] ∧ members.length ≤ maxMembers ∧ width < ArrayFlags.fieldLimit
    · simp only [Registry.unionSlot, if_pos hin]
      rfl
    · simp only [Registry.unionSlot, if_neg hin]
      rfl

theorem runOn_wideStorage {w : Option Nat} {d : Descriptor} (hs : h.registry.Sound)
    (hd : h.types.descriptor elem = .ok d) (hunion : d.kind = .union)
    (hw : h.registry.Widest d.memberTypes w) :
    (wideStorage elem).runOn h =
      (.ok (match Registry.unionSlot d.memberTypes w with
        | some width => (.selected, width)
        | none => (.references, refSize)), h) := by
  unfold wideStorage
  rw [Action.runOn_bind_ok (Action.runOn_get h), hd, Action.runOn_bind_ok (Action.runOn_lift _ h),
    if_pos hunion, Action.runOn_bind_ok (runOn_unionSlot hs hw)]
  cases Registry.unionSlot d.memberTypes w <;> rfl

theorem runOn_elementStorage_of_notFlat (hs : h.registry.Sound) (hwide : h.registry.NotFlat elem) :
    (elementStorage elem).runOn h = (wideStorage elem).runOn h := by
  rw [elementStorage_eq]
  rcases hwide with hout | ⟨hin, n, hn, hbig⟩
  · rw [Action.runOn_bind_ok (Heap.runOn_isInline hout)]
    rfl
  · rw [Action.runOn_bind_ok (Heap.runOn_isInline hin), if_pos rfl,
      Action.runOn_bind_ok (Heap.runOn_sizeOf hs hn), if_neg hbig]

/-- How elements are stored is found out again without a change. -/
theorem runOn_elementStorage {storage : ElementStorage} {slotSize : Nat} (hs : h.registry.Sound)
    (hstored : h.registry.Stored elem storage slotSize) :
    (elementStorage elem).runOn h = (.ok (storage, slotSize), h) := by
  cases hstored with
  | flat inline size small =>
    rw [elementStorage_eq, Action.runOn_bind_ok (Heap.runOn_isInline inline), if_pos rfl,
      Action.runOn_bind_ok (Heap.runOn_sizeOf hs size), if_pos small]
    rfl
  | selected wide hd union widest inPlace =>
    rw [runOn_elementStorage_of_notFlat hs wide, runOn_wideStorage hs hd union widest, inPlace]
  | @references d wide hd other =>
    rw [runOn_elementStorage_of_notFlat hs wide]
    by_cases hunion : d.kind = .union
    · obtain ⟨w, hw, hnone⟩ := other hunion
      rw [runOn_wideStorage hs hd hunion hw, hnone]
    · have hd : h.types.descriptor elem = .ok d := hd
      unfold wideStorage
      rw [Action.runOn_bind_ok (Action.runOn_get h), hd, Action.runOn_bind_ok (Action.runOn_lift _ h),
        if_neg hunion]
      rfl

end ArrayObject

end TypedHeap
