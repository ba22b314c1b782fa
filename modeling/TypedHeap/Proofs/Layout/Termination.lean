import TypedHeap.Proofs.Layout.History
import TypedHeap.Proofs.Types.Dependencies

/-!
# Layouts are found without a bound

The layout of a type is computed from the layouts of the types of its fields, which come before it. So the
computation ends, whatever is remembered before it and however deep the types nest: the bound on nesting only
makes it give up early.

* `Layouts.step`: one step of the computation, given what answers for the fields.

Main results: `terminates_step` and `outcome_unbounded`, by which the computation without the bound answers what the
recursion without a memo does.
-/

namespace TypedHeap

namespace Layouts

variable {tt : TypeTable} {m : LayoutMemo} {s t : TypeRef} {d : Descriptor} {n : Nat}
  {f g : TypeRef → Action LayoutMemo Layout}

/-- The layout of a type, remembered or computed, given what lays out the types of its fields. -/
def step (tt : TypeTable) (layoutOf : TypeRef → Action LayoutMemo Layout) (t : TypeRef) : Action LayoutMemo Layout :=
  memoized tt t (compute tt layoutOf)

theorem within_eq_iterate (tt : TypeTable) (n : Nat) : within tt n = (step tt)^[n] (within tt 0) :=
  eq_iterate_of_succ (fun _ => rfl) n

theorem lift_bind_congr {α β : Type} {x : Except Error α} {f g : α → Action LayoutMemo β}
    (h : ∀ a, x = .ok a → f a = g a) : (liftM x : Action LayoutMemo α) >>= f = liftM x >>= g := by
  cases x with
  | error e => rfl
  | ok a =>
    calc
      (liftM (.ok a : Except Error α) : Action LayoutMemo α) >>= f = f a := rfl
      _ = g a := h a rfl
      _ = liftM (.ok a : Except Error α) >>= g := rfl

theorem product_congr {isMutable : Bool} {fields : List (Symbol × TypeRef)} (h : ∀ p ∈ fields, f p.2 = g p.2) :
    product tt f isMutable fields = product tt g isMutable fields := by
  unfold product
  rw [foldlM_congr fun p hp draft => ?_]
  unfold extend slot
  rw [h p hp]

/-- Computing the layout of an instance asks for the layouts of the types that it mentions. -/
theorem compute_congr (h : ∀ s, d.Mentions s → f s = g s) : compute tt f d = compute tt g d := by
  unfold compute
  cases hkind : d.kind with
  | struct =>
    refine lift_bind_congr fun fields hfields => product_congr fun p hp => h p.2 ?_
    exact FieldsOf.mentions (.inl ⟨hkind, hfields⟩) p hp
  | tuple =>
    refine lift_bind_congr fun fields hfields => product_congr fun p hp => h p.2 ?_
    exact FieldsOf.mentions (.inr ⟨hkind, hfields⟩) p hp
  | _ => rfl

theorem step_congr (ho : tt.Ordered) (h : ∀ s, s.index < t.index → f s = g s) : step tt f t = step tt g t := by
  refine lift_bind_congr fun d hd => ?_
  rw [compute_congr fun s hs => h s (ho.earlier hd hs)]

/-- The computation ends: with as many steps as the number of the type says, no call is left. -/
theorem terminates_step (ho : tt.Ordered) (t : TypeRef) : Terminates (step tt) t (within tt t.index t) := by
  rw [within_eq_iterate]
  exact TypeRef.terminates (fun _ _ _ => step_congr ho) t _

/-! ## Depth -/

/-- A type depends on the types that stand in its fields. -/
theorem depends_of_holds (h : Holds tt t s) : tt.Depends s t := by
  obtain ⟨d, fields, e, hd, hfields, hmem, -⟩ := h
  obtain ⟨p, hp, rfl⟩ := List.mem_map.1 hmem
  exact ⟨d, hd, .inl (hfields.mentions p hp)⟩

/-- Types nest at most as deep as their numbers. -/
theorem nestsWithin_index (ho : tt.Ordered) (hr : tt.Rising) (hn : t.index ≤ n) : NestsWithin tt n t := by
  induction n generalizing t with
  | zero => exact absurd t.pos (by omega)
  | succ n ih =>
    intro s hs
    have := ho.lt_of_depends hr (depends_of_holds hs)
    exact ih (by omega)

/-- Without the bound the outcome is that of the recursion without a memo. -/
theorem outcome_unbounded (ht : tt.Sound) (ho : tt.Ordered) (hr : tt.Rising) (hm : m.Sound tt) (t : TypeRef) :
    ((within tt t.index t).runOn m).1 = reference tt t :=
  (within_bounded ht ho hm t.index t).eq_of_not (not_not_intro (nestsWithin_index ho hr (Nat.le_refl _)))

/-! ## Types without a layout -/

/-- The first fields of a struct or tuple end behind what a word can say, as far as they have sizes. -/
def Overfull (tt : TypeTable) (t : TypeRef) : Prop :=
  ∃ d fields first slots, tt.descriptor t = .ok d ∧ FieldsOf d fields ∧ first <+: fields ∧
    List.Forall₂ (fun p s => plainSlot tt (reference tt) p.1 p.2 = .ok s) first slots ∧
    2 ^ 64 ≤ endFrom 0 slots + 16

/-- What the first fields of a product take up, as far as they have sizes, is more than a word can say. -/
def OverfullFields (tt : TypeTable) (fields : List (Symbol × TypeRef)) : Prop :=
  ∃ first slots, first <+: fields ∧
    List.Forall₂ (fun p s => plainSlot tt (reference tt) p.1 p.2 = .ok s) first slots ∧
    2 ^ 64 ≤ endFrom 0 slots + 16

section Overfull

variable {fields : List (Symbol × TypeRef)} {e : Error}

theorem OverfullFields.overfull (h : OverfullFields tt fields) (hd : tt.descriptor t = .ok d)
    (hfields : FieldsOf d fields) : Overfull tt t := by
  obtain ⟨first, slots, hfirst, hslots, hend⟩ := h
  exact ⟨d, fields, first, slots, hd, hfields, hfirst, hslots, hend⟩

theorem plainSlot_eq_error {name : Symbol} (hd : tt.descriptor t = .ok d)
    (he : plainSlot tt (reference tt) name t = .error e) : d.mayBeInline = true ∧ reference tt t = .error e := by
  rw [plainSlot, hd] at he
  have he : (if d.mayBeInline = true then _ else _) = _ := he
  split at he
  · rename_i hinline
    refine ⟨hinline, ?_⟩
    cases hl : reference tt t with
    | error e' =>
      rw [hl] at he
      cases he
      rfl
    | ok l =>
      rw [hl] at he
      cases he
  · cases he

variable (ht : tt.Sound) (ho : tt.Ordered) (hr : tt.Rising)

include ht ho hr

theorem reference_aligned {l : Layout} (hl : reference tt t = .ok l) : l.alignment ∈ TypeTable.alignments := by
  have hrun := outcome_unbounded ht ho hr (LayoutMemo.sound_empty tt) t
  rw [hl] at hrun
  obtain ⟨hm, hfound, -⟩ := within_answer ht ho (LayoutMemo.sound_empty tt) (Prod.ext hrun rfl)
  exact hm.aligned hfound

theorem plainSlot_aligned {name : Symbol} {slot : Slot} (hs : plainSlot tt (reference tt) name t = .ok slot) :
    slot.align ∈ TypeTable.alignments := by
  obtain ⟨d, -, hs⟩ := bind_eq_ok.1 hs
  split at hs
  · obtain ⟨l, hl, hs⟩ := bind_eq_ok.1 hs
    cases hs
    split
    · exact reference_aligned ht ho hr hl
    · exact TypeTable.refSize_mem
  · cases hs
    exact TypeTable.refSize_mem

/-- A product has no layout if the type of a field has none, or if its fields take up too much. -/
theorem plainProduct_eq_error {isMutable : Bool} (he : plainProduct tt (reference tt) isMutable fields = .error e) :
    (∃ p ∈ fields, plainSlot tt (reference tt) p.1 p.2 = .error e) ∨ e = .overflow ∧ OverfullFields tt fields := by
  have hplaced {first : List (Symbol × TypeRef)} {slots : List Slot} (hfirst : first <+: fields)
      (hslots : List.Forall₂ (fun p s => plainSlot tt (reference tt) p.1 p.2 = .ok s) first slots)
      (he : Layout.placed isMutable slots = .error e) : e = .overflow ∧ OverfullFields tt fields := by
    have halign : ∀ s ∈ slots, s.align ∈ TypeTable.alignments := by
      clear he hfirst
      induction hslots with
      | nil => exact nofun
      | cons hs _ ih => exact List.forall_mem_cons.2 ⟨plainSlot_aligned ht ho hr hs, ih⟩
    obtain ⟨hover, hend⟩ := Layout.placed_eq_error halign he
    exact ⟨hover, first, slots, hfirst, hslots, hend⟩
  unfold plainProduct at he
  cases hdraft : fields.foldlM (plainExtend tt (reference tt)) Draft.empty with
  | error e' =>
    rw [hdraft] at he
    cases he
    rcases foldlM_bind_eq_error hdraft with hfield | ⟨first, slots, hfirst, hslots, he⟩
    · exact .inl hfield
    · refine .inr (hplaced hfirst hslots ?_)
      rw [Layout.placed, he]
      rfl
  | ok draft =>
    rw [hdraft] at he
    obtain ⟨slots, hslots, hfold⟩ := foldlM_bind_eq_ok.1 hdraft
    refine .inr (hplaced (List.prefix_refl _) hslots ?_)
    rw [Layout.placed, hfold]
    exact he

/-- A type that has objects has a layout, unless what it is or has inside itself takes up too much. -/
theorem reference_raises (hd : tt.descriptor t = .ok d) (hkind : d.kind.isInstantiable = true) :
    Raises (reference tt t) fun e => e = .overflow ∧ ∃ s, Inside tt t s ∧ Overfull tt s := by
  -- The types of inline fields come before the type.
  induction hn : t.index using Nat.strongRecOn generalizing t d with
  | ind n ih =>
    have hproduct {fields : List (Symbol × TypeRef)} (hfields : FieldsOf d fields) :
        Raises (plainProduct tt (reference tt) d.isMutable fields) fun e =>
          e = .overflow ∧ ∃ s, Inside tt t s ∧ Overfull tt s := by
      intro e he
      rcases plainProduct_eq_error ht ho hr he with ⟨p, hp, he⟩ | ⟨hover, hfull⟩
      · have hlt := ho.earlier hd (hfields.mentions p hp)
        obtain ⟨c, hc⟩ := TypeTable.contains_iff.1 (TypeTable.contains_of_lt hd hlt)
        obtain ⟨hinline, he⟩ := plainSlot_eq_error hc he
        obtain ⟨hover, s, hs, hfull⟩ := ih p.2.index (hn ▸ hlt) hc (isInstantiable_of_mayBeInline hinline) rfl e he
        have hholds : Holds tt t p.2 := ⟨d, fields, c, hd, hfields, List.mem_map_of_mem hp, hc, hinline⟩
        exact ⟨hover, s, hs.head hholds, hfull⟩
      · exact ⟨hover, t, .refl, hfull.overfull hd hfields⟩
    rw [reference_eq ho, hd]
    show Raises (plain tt (reference tt) d) _
    by_cases hfielded : d.kind = .struct ∨ d.kind = .tuple
    · obtain ⟨fields, hfields⟩ := exists_fieldsOf ho hd hfielded
      rw [hfields.plain_eq]
      exact hproduct hfields
    unfold plain
    cases hk : d.kind <;> rw [hk] at hkind hfielded
    case abstract | union => cases hkind
    case struct | tuple => simp at hfielded
    case array =>
      obtain ⟨elem, n, hparams, -⟩ := ht.array hd hk
      unfold array
      rw [hparams]
      exact .ok
    all_goals exact .ok

end Overfull

end Layouts

end TypedHeap
