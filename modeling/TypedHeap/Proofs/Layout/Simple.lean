import TypedHeap.Proofs.Layout.History
import TypedHeap.Scalar

/-!
# Simple layouts

Scalars and arrays have no fields, and a struct whose fields are scalars and references holds no type that
has inline fields itself. Their layouts can be written down, and asking for them does not fail.

* `Layouts.LaidOut`: a type has a layout that is found however much is remembered.
* `Layouts.Simple`, `Layouts.simpleLayout`: types of fields, and how structs of them are laid out.

Main results: `laidOut_scalar`, `laidOut_array`, `laidOut_struct`, `LaidOut.answer`.
-/

namespace TypedHeap

namespace Layouts

variable {tt : TypeTable} {m : LayoutMemo} {s t elem : TypeRef} {d : Descriptor} {l : Layout} {k : ScalarKind}
  {fields : List (Symbol × TypeRef)} {n : Int64}

/-- A type has a layout, and types nest in it no deeper than the bound. -/
structure LaidOut (tt : TypeTable) (t : TypeRef) (l : Layout) : Prop where
  reference : reference tt t = .ok l
  nests : NestsWithin tt (maxDepth + 1) t

/-- The layout is found. -/
theorem LaidOut.answer (hl : LaidOut tt t l) (ht : tt.Sound) (ho : tt.Ordered) (hm : m.Sound tt) :
    ((of tt t).runOn m).1 = .ok l := by
  have hbounded := of_bounded ht ho hm t
  rw [hl.reference] at hbounded
  exact hbounded.eq_of_not (not_not_intro hl.nests)

/-! ## Types without fields -/

/-- The builtin type of a kind of scalars is bits, aligned to their size. -/
theorem builtin_scalar (k : ScalarKind) : TypeTable.builtin.descriptor k.type =
    .ok ⟨k.type, Builtin.bits k.name k.size, []⟩ := by
  cases k <;> rfl

/-- Sizes of scalars are words. -/
theorem toNat_scalar_size (k : ScalarKind) : (UInt64.ofNat k.size).toNat = k.size := by
  cases k <;> rfl

theorem descriptor_scalar (hs : tt.Sound) (k : ScalarKind) :
    tt.descriptor k.type = .ok ⟨k.type, Builtin.bits k.name k.size, []⟩ :=
  hs.builtin.descriptor (builtin_scalar k)

/-- Messages call the type of a kind of scalars by its name. -/
theorem renderOrRef_scalar (hs : tt.Sound) (k : ScalarKind) : tt.renderOrRef k.type = k.name := by
  obtain ⟨n, hn⟩ := Nat.exists_eq_succ_of_ne_zero (Nat.ne_of_gt k.type.pos)
  have hrender : tt.render k.type = .ok k.name := by
    rw [TypeTable.render, hn, TypeTable.renderWithin, descriptor_scalar hs k]
    rfl
  rw [TypeTable.renderOrRef, hrender]

theorem mismatch_scalar (hs : tt.Sound) (j k : ScalarKind) :
    tt.mismatch j.type k.type = .typeMismatch j.name k.name := by
  rw [TypeTable.mismatch, renderOrRef_scalar hs, renderOrRef_scalar hs]

/-- Only products hold types. -/
theorem nestsWithin_of_kind (hd : tt.descriptor t = .ok d) (hkind : d.kind ≠ .struct ∧ d.kind ≠ .tuple)
    (depth : Nat) : NestsWithin tt (depth + 1) t := by
  rintro s ⟨e, fields, -, he, hfields, -⟩
  rw [hd] at he
  cases he
  rcases hfields with ⟨h, -⟩ | ⟨h, -⟩
  · exact absurd h hkind.1
  · exact absurd h hkind.2

theorem nestsWithin_scalar (hs : tt.Sound) (k : ScalarKind) (depth : Nat) :
    NestsWithin tt (depth + 1) k.type :=
  nestsWithin_of_kind (descriptor_scalar hs k) ⟨nofun, nofun⟩ depth

theorem laidOut_scalar (hs : tt.Sound) (ho : tt.Ordered) (k : ScalarKind) :
    LaidOut tt k.type (Layout.bits k.size k.size) where
  reference := by
    rw [reference_eq ho, descriptor_scalar hs]
    cases k <;> rfl
  nests := nestsWithin_scalar hs k maxDepth

/-- An array has four words, its dimensions and its owner. -/
theorem laidOut_array (ho : tt.Ordered) (h : tt.Stands Builtin.arrayFamily [.type elem, .int n] t) :
    LaidOut tt t (.handle (ownerOffset n.toInt.toNat + refSize) refSize [0, ownerOffset n.toInt.toNat]) := by
  obtain ⟨d, hd, hfamily, hparams⟩ := h
  have hkind : d.kind = .array := by
    rw [Descriptor.kind, hfamily]
    rfl
  refine ⟨?_, nestsWithin_of_kind hd ?_ maxDepth⟩
  · rw [reference_eq ho, hd]
    show plain tt (Layouts.reference tt) d = _
    unfold plain array
    rw [hkind, hparams]
    rfl
  · rw [hkind]
    exact ⟨nofun, nofun⟩

/-! ## Structs with simple fields -/

/-- A type of scalars, or one whose values are never stored inline. -/
inductive Simple (tt : TypeTable) (t : TypeRef) : Prop
  | scalar {k : ScalarKind} (type : k.type = t)
  | reference {d : Descriptor} (descriptor : tt.descriptor t = .ok d) (outside : d.mayBeInline = false)

/-- The slot of a field whose type is simple. -/
def simpleSlot (p : Symbol × TypeRef) : Slot :=
  match ScalarKind.ofType? p.2 with
  | some k => ⟨p.1, p.2, k.size, k.size, true⟩
  | none => Slot.reference p.1 p.2

theorem type_of_ofType? (h : ScalarKind.ofType? t = some k) : k.type = t := by
  have hfound : (k.type == t) = true := List.find?_some (p := fun k => ScalarKind.type k == t) h
  exact beq_iff_eq.1 hfound

theorem simpleSlot_scalar (name : Symbol) (k : ScalarKind) :
    simpleSlot (name, k.type) = ⟨name, k.type, k.size, k.size, true⟩ := by
  simp only [simpleSlot, ScalarKind.ofType?_type]

theorem simpleSlot_type (p : Symbol × TypeRef) : (simpleSlot p).type = p.2 := by
  unfold simpleSlot
  cases ScalarKind.ofType? p.2 <;> rfl

theorem scalar_size_mem (k : ScalarKind) : k.size ∈ TypeTable.alignments := by
  cases k <;> decide

theorem scalar_size_le (k : ScalarKind) : k.size ≤ refSize := by
  cases k <;> decide

theorem simpleSlot_align_mem (p : Symbol × TypeRef) : (simpleSlot p).align ∈ TypeTable.alignments := by
  unfold simpleSlot
  cases ScalarKind.ofType? p.2 with
  | none => exact TypeTable.refSize_mem
  | some k => exact scalar_size_mem k

theorem simpleSlot_align_pos (p : Symbol × TypeRef) : 0 < (simpleSlot p).align :=
  TypeTable.pos_of_alignment (simpleSlot_align_mem p)

theorem simpleSlot_size_le (p : Symbol × TypeRef) : (simpleSlot p).size ≤ refSize := by
  unfold simpleSlot
  cases ScalarKind.ofType? p.2 with
  | none => exact Nat.le_refl _
  | some k => exact scalar_size_le k

/-- The fields of a struct that is laid out simply: their types are simple, and they fit in a word. -/
structure SimpleFields (tt : TypeTable) (fields : List (Symbol × TypeRef)) : Prop where
  simple : ∀ p ∈ fields, Simple tt p.2
  few : fields.length < 2 ^ 58

/-- A simple field and the gap in front of it take a few bytes. -/
theorem endFrom_simpleSlot_le (off : Nat) (fields : List (Symbol × TypeRef)) :
    endFrom off (fields.map simpleSlot) ≤ off + 24 * fields.length := by
  induction fields generalizing off with
  | nil => exact Nat.le_refl off
  | cons p fields ih =>
    have hstart : alignUp off (simpleSlot p).align < off + (simpleSlot p).align :=
      alignUp_lt (simpleSlot_align_pos p)
    have halign := TypeTable.alignment_le (simpleSlot_align_mem p)
    have hsize := simpleSlot_size_le p
    have hrest := ih (alignUp off (simpleSlot p).align + (simpleSlot p).size)
    rw [refSize] at hsize
    rw [List.map_cons, endFrom, List.length_cons]
    omega

theorem simpleSlot_reference {name : Symbol} (hs : tt.Sound) (hd : tt.descriptor t = .ok d)
    (hout : d.mayBeInline = false) : simpleSlot (name, t) = Slot.reference name t := by
  cases hk : ScalarKind.ofType? t with
  | none => simp only [simpleSlot, hk]
  | some k =>
    rw [← type_of_ofType? hk, descriptor_scalar hs] at hd
    cases hd
    cases hout

/-- Arrays are simple, and no scalars. -/
theorem simple_array {ps : Params} (h : tt.Stands Builtin.arrayFamily ps t) : Simple tt t := by
  obtain ⟨d, hd, hfamily, -⟩ := h
  refine .reference hd ?_
  rw [Descriptor.mayBeInline, Descriptor.kind, hfamily]
  exact Bool.and_false _

theorem ofType?_array {ps : Params} (hs : tt.Sound) (h : tt.Stands Builtin.arrayFamily ps t) :
    ScalarKind.ofType? t = none := by
  cases hk : ScalarKind.ofType? t with
  | none => rfl
  | some k =>
    obtain ⟨d, hd, hfamily, -⟩ := h
    rw [← type_of_ofType? hk, descriptor_scalar hs] at hd
    cases hd
    cases congrArg Family.kind hfamily

theorem plainSlot_simple {p : Symbol × TypeRef} (hs : tt.Sound) (ho : tt.Ordered) (hp : Simple tt p.2) :
    plainSlot tt (reference tt) p.1 p.2 = .ok (simpleSlot p) := by
  obtain ⟨name, t⟩ := p
  dsimp only at hp ⊢
  cases hp with
  | @scalar k type =>
    rw [← type, simpleSlot_scalar, plainSlot, descriptor_scalar hs, (laidOut_scalar hs ho k).reference]
    rfl
  | reference hd hout =>
    rw [simpleSlot_reference hs hd hout, plainSlot, hd]
    show (if Descriptor.mayBeInline _ = true then _ else _ : Except Error Slot) = _
    rw [hout]
    rfl

/-- The layout of a struct whose fields are simple. -/
def simpleLayout (isMutable : Bool) (fields : List (Symbol × TypeRef)) : Layout :=
  Layout.ofSlots isMutable (fields.map simpleSlot)

theorem placed_simpleLayout (isMutable : Bool) (fields : List (Symbol × TypeRef)) :
    List.Forall₂ (fun p e => (simpleSlot p).Placed e) fields (simpleLayout isMutable fields).fields :=
  List.forall₂_map_left_iff.1 (placed_placeFrom 0 (fields.map simpleSlot))

theorem nestsWithin_struct (hs : tt.Sound) (hd : tt.descriptor t = .ok d)
    (hfields : structFields d = .ok fields) (hkind : d.kind = .struct) (hsimple : SimpleFields tt fields)
    (depth : Nat) : NestsWithin tt (depth + 2) t := by
  rintro s ⟨d', fields', e, hd', hfields', hmem, he, hinline⟩
  rw [hd] at hd'
  cases hd'
  obtain rfl := FieldsOf.unique (.inl ⟨hkind, hfields⟩) hfields'
  obtain ⟨p, hp, rfl⟩ := List.mem_map.1 hmem
  cases hsimple.simple p hp with
  | @scalar k type =>
    rw [← type]
    exact nestsWithin_scalar hs k depth
  | reference hd hout =>
    rw [hd] at he
    cases he
    rw [hinline] at hout
    cases hout

theorem laidOut_struct (hs : tt.Sound) (ho : tt.Ordered) (hd : tt.descriptor t = .ok d)
    (hkind : d.kind = .struct) (hfields : structFields d = .ok fields) (hsimple : SimpleFields tt fields) :
    LaidOut tt t (simpleLayout d.isMutable fields) := by
  refine ⟨?_, nestsWithin_struct hs hd hfields hkind hsimple 63⟩
  have hslots : List.Forall₂ (fun p s => plainSlot tt (reference tt) p.1 p.2 = .ok s) fields
      (fields.map simpleSlot) := by
    rw [List.forall₂_map_right_iff, List.forall₂_same]
    exact fun p hp => plainSlot_simple hs ho (hsimple.simple p hp)
  have haligns : ∀ s ∈ fields.map simpleSlot, s.align ∈ TypeTable.alignments :=
    List.forall_mem_map.2 fun p _ => simpleSlot_align_mem p
  have hend := endFrom_simpleSlot_le 0 fields
  have hfew := hsimple.few
  have hplaced : Layout.placed d.isMutable (fields.map simpleSlot) = .ok (simpleLayout d.isMutable fields) :=
    Layout.placed_ofSlots haligns (by omega)
  have hproduct : plainProduct tt (reference tt) d.isMutable fields = .ok (simpleLayout d.isMutable fields) :=
    plainProduct_eq_ok.2 ⟨_, hslots, hplaced⟩
  rw [reference_eq ho, hd]
  show plain tt (reference tt) d = _
  rw [FieldsOf.plain_eq (.inl ⟨hkind, hfields⟩), hproduct]

end Layouts

end TypedHeap
