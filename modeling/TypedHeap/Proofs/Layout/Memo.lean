import TypedHeap.Layout.Memo
import TypedHeap.Proofs.Layout.Geometry
import TypedHeap.Proofs.Types.Growth

/-!
# Remembered layouts

A layout that is remembered for a type is the one that the type's kind, fields and parameters ask for,
with the layouts of inline fields remembered too. What is remembered is never replaced.

* `Layouts.Inline`: what is known of a type once somebody asked whether it is stored inline.
* `Layouts.FieldsOf`: the fields of a struct or tuple.
* `Layouts.SlotFor`, `Layouts.Describes`: what a field becomes, and what the layout of a type is.
* `LayoutMemo.Sound`, `LayoutMemo.Grows`: what holds of a memo, and how it changes.

Main results: `Layouts.of_meets`, `Layouts.isInline_meets`, and the facts about the fields of a
remembered layout, `LayoutMemo.Sound.end_le`, `separate`, `inline`.
-/

namespace TypedHeap

open TypedHeap.Action (Meets)

/-! ## What is remembered -/

/-- Nothing that is remembered is lost or replaced. -/
def LayoutMemo.Extends (m m' : LayoutMemo) : Prop :=
  ∀ {t l}, m.find? t = some l → m'.find? t = some l

theorem LayoutMemo.find?_cons {m : LayoutMemo} {s t : TypeRef} {l : Layout} :
    LayoutMemo.find? ⟨(s, l) :: m.entries⟩ t = if t = s then some l else m.find? t := by
  rw [LayoutMemo.find?, List.lookup_cons]
  by_cases h : t = s
  · rw [if_pos h, beq_iff_eq.2 h]
  · rw [if_neg h, beq_eq_false_iff_ne.2 h]
    rfl

namespace Layouts

/-- Somebody asked whether a type is stored inline, and the answer was `b`. -/
def Inline (tt : TypeTable) (m : LayoutMemo) (t : TypeRef) (b : Bool) : Prop :=
  ∃ d, tt.descriptor t = .ok d ∧
    (d.mayBeInline = false ∧ b = false ∨
      d.mayBeInline = true ∧ ∃ l, m.find? t = some l ∧ l.isBits = b)

/-- What a field with a name and a type becomes in a layout. -/
inductive SlotFor (tt : TypeTable) (m : LayoutMemo) (p : Symbol × TypeRef) : Slot → Prop
  | inline {l : Layout} (inline : Inline tt m p.2 true) (found : m.find? p.2 = some l) :
      SlotFor tt m p ⟨p.1, p.2, l.size, l.alignment, true⟩
  | reference (outside : Inline tt m p.2 false) : SlotFor tt m p (Slot.reference p.1 p.2)

/-- The fields of a product with their types. -/
def FieldsOf (d : Descriptor) (fields : List (Symbol × TypeRef)) : Prop :=
  d.kind = .struct ∧ structFields d = .ok fields ∨
    d.kind = .tuple ∧ tupleFieldsFrom 0 d.params = .ok fields

/-- The layout of a product of fields. -/
def Product (tt : TypeTable) (m : LayoutMemo) (isMutable : Bool) (fields : List (Symbol × TypeRef))
    (l : Layout) : Prop :=
  ∃ slots, List.Forall₂ (SlotFor tt m) fields slots ∧ Layout.placed isMutable slots = .ok l

/-- The layout of a type, by its kind. -/
def Describes (tt : TypeTable) (m : LayoutMemo) (d : Descriptor) (l : Layout) : Prop :=
  match d.kind with
  | .primitive size align => l = Layout.bits size.toNat align.toNat
  | .abstract | .union => False
  | .string | .simpleVector | .buffer => l = Layout.handle refSize refSize []
  | .array => array d = .ok l
  | .struct => ∃ fields, structFields d = .ok fields ∧ Product tt m d.isMutable fields l
  | .tuple => ∃ fields, tupleFieldsFrom 0 d.params = .ok fields ∧ Product tt m d.isMutable fields l

section Fields

variable {tt : TypeTable} {m : LayoutMemo} {d : Descriptor} {l : Layout} {fields fields' : List (Symbol × TypeRef)}

theorem FieldsOf.unique (h : FieldsOf d fields) (h' : FieldsOf d fields') : fields' = fields := by
  rcases h with ⟨hkind, h⟩ | ⟨hkind, h⟩ <;> rcases h' with ⟨hkind', h'⟩ | ⟨hkind', h'⟩
  · exact Except.ok.inj (h'.symm.trans h)
  · cases hkind.symm.trans hkind'
  · cases hkind.symm.trans hkind'
  · exact Except.ok.inj (h'.symm.trans h)

/-- A struct or tuple is laid out as the product of its fields. -/
theorem Describes.product (h : Describes tt m d l) (hkind : d.kind = .struct ∨ d.kind = .tuple) :
    ∃ fields, FieldsOf d fields ∧ Product tt m d.isMutable fields l := by
  unfold Describes at h
  rcases hkind with hkind | hkind
  · simp only [hkind] at h
    obtain ⟨fields, hfields, hp⟩ := h
    exact ⟨fields, .inl ⟨hkind, hfields⟩, hp⟩
  · simp only [hkind] at h
    obtain ⟨fields, hfields, hp⟩ := h
    exact ⟨fields, .inr ⟨hkind, hfields⟩, hp⟩

/-- An array is a number of words. -/
theorem exists_handle_of_array (h : array d = .ok l) :
    ∃ size pointers, refSize ∣ size ∧ l = Layout.handle size refSize pointers := by
  unfold array at h
  obtain ⟨p, -, h⟩ := bind_eq_ok.1 h
  split at h
  · cases h
    exact ⟨_, _, Nat.dvd_add (Nat.dvd_mul_right refSize _) (Nat.dvd_refl refSize), rfl⟩
  · cases h

/-- The layout of a type is that of a product, or bits, or words that nothing looks into. -/
theorem Describes.cases (h : Describes tt m d l) :
    (∃ fields, FieldsOf d fields ∧ Product tt m d.isMutable fields l) ∨
      (∃ size align, d.kind = .primitive size align ∧ l = Layout.bits size.toNat align.toNat) ∨
        ∃ size pointers, refSize ∣ size ∧ l = Layout.handle size refSize pointers := by
  by_cases hfielded : d.kind = .struct ∨ d.kind = .tuple
  · exact .inl (h.product hfielded)
  right
  unfold Describes at h
  cases hkind : d.kind <;> simp only [hkind] at h hfielded
  case primitive size align => exact .inl ⟨size, align, rfl, h⟩
  case struct | tuple => simp at hfielded
  case array => exact .inr (exists_handle_of_array h)
  all_goals exact .inr ⟨refSize, [], Nat.dvd_refl refSize, h⟩

/-- What has fields is a product. -/
theorem Describes.fields_cases (h : Describes tt m d l) :
    l.fields = [] ∨ ∃ fields, FieldsOf d fields ∧ Product tt m d.isMutable fields l := by
  rcases h.cases with hp | ⟨size, align, -, rfl⟩ | ⟨size, pointers, -, rfl⟩
  · exact .inr hp
  · exact .inl rfl
  · exact .inl rfl

end Fields

section Growth

variable {tt tt' : TypeTable} {m m' : LayoutMemo} {t : TypeRef} {b : Bool} {d : Descriptor}
  {l : Layout}

theorem Inline.extends (h : Inline tt m t b) (ht : tt.Extends tt') (hm : m.Extends m') :
    Inline tt' m' t b := by
  obtain ⟨d, hd, h⟩ := h
  refine ⟨d, ht.descriptor hd, h.imp_right ?_⟩
  rintro ⟨hinline, l, hl, hb⟩
  exact ⟨hinline, l, hm hl, hb⟩

theorem Inline.find? (h : Inline tt m t true) : ∃ l, m.find? t = some l ∧ l.isBits = true := by
  obtain ⟨d, -, ⟨-, h⟩ | ⟨-, h⟩⟩ := h
  · cases h
  · exact h

theorem SlotFor.extends {p : Symbol × TypeRef} {s : Slot} (h : SlotFor tt m p s)
    (ht : tt.Extends tt') (hm : m.Extends m') : SlotFor tt' m' p s := by
  cases h with
  | inline inline found => exact .inline (inline.extends ht hm) (hm found)
  | reference outside => exact .reference (outside.extends ht hm)

theorem Product.extends {isMutable : Bool} {fields : List (Symbol × TypeRef)}
    (h : Product tt m isMutable fields l) (ht : tt.Extends tt') (hm : m.Extends m') :
    Product tt' m' isMutable fields l := by
  obtain ⟨slots, hslots, hl⟩ := h
  exact ⟨slots, hslots.imp fun _ _ hs => hs.extends ht hm, hl⟩

theorem Describes.extends (h : Describes tt m d l) (ht : tt.Extends tt') (hm : m.Extends m') :
    Describes tt' m' d l := by
  unfold Describes at h ⊢
  cases hkind : d.kind <;> simp only [hkind] at h ⊢ <;> try exact h
  all_goals
    obtain ⟨fields, hfields, h⟩ := h
    exact ⟨fields, hfields, h.extends ht hm⟩

end Growth

end Layouts

open Layouts

namespace LayoutMemo

/-- Every remembered layout is the layout of a registered type, aligned in one of the ways that a declaration
may ask for. -/
structure Sound (tt : TypeTable) (m : LayoutMemo) : Prop where
  describes : ∀ {t l}, m.find? t = some l → ∃ d, tt.descriptor t = .ok d ∧ Describes tt m d l
  aligned : ∀ {t l}, m.find? t = some l → l.alignment ∈ TypeTable.alignments

theorem sound_empty (tt : TypeTable) : empty.Sound tt := ⟨nofun, nofun⟩

variable {tt tt' : TypeTable} {m m' m'' : LayoutMemo} {t : TypeRef} {d : Descriptor} {l : Layout}
  {f g : FieldLayout}

theorem Sound.extends (h : m.Sound tt) (ht : tt.Extends tt') : m.Sound tt' := by
  refine ⟨fun hl => ?_, h.aligned⟩
  obtain ⟨d, hd, hdesc⟩ := h.describes hl
  exact ⟨d, ht.descriptor hd, hdesc.extends ht fun h => h⟩

namespace Sound

theorem slot_align_mem (h : m.Sound tt) {fields : List (Symbol × TypeRef)} {slots : List Slot}
    (hslots : List.Forall₂ (SlotFor tt m) fields slots) : ∀ s ∈ slots, s.align ∈ TypeTable.alignments := by
  induction hslots with
  | nil => exact nofun
  | cons hs _ ih =>
    rw [List.forall_mem_cons]
    refine ⟨?_, ih⟩
    cases hs with
    | inline _ found => exact h.aligned found
    | reference _ => exact TypeTable.refSize_mem

/-- In a product all sums are words, so its layout is the one in numbers. -/
theorem product (h : m.Sound tt) {isMutable : Bool} {fields : List (Symbol × TypeRef)}
    (hp : Product tt m isMutable fields l) : ∃ slots, List.Forall₂ (SlotFor tt m) fields slots ∧
      (∀ s ∈ slots, s.align ∈ TypeTable.alignments) ∧ l = Layout.ofSlots isMutable slots ∧ l.size < 2 ^ 64 := by
  obtain ⟨slots, hslots, hl⟩ := hp
  have halign := h.slot_align_mem hslots
  obtain ⟨hl, hsize⟩ := Layout.eq_ofSlots halign hl
  exact ⟨slots, hslots, halign, hl, hsize⟩

/-- The layout of a type is aligned as a declaration may ask for, if the layouts of its fields are. -/
theorem describes_aligned (h : m.Sound tt) (ht : tt.Sound) (hd : tt.descriptor t = .ok d)
    (hdesc : Describes tt m d l) : l.alignment ∈ TypeTable.alignments := by
  rcases hdesc.cases with ⟨fields, -, hp⟩ | ⟨size, align, hkind, rfl⟩ | ⟨size, pointers, -, rfl⟩
  · obtain ⟨slots, -, halign, rfl, -⟩ := h.product hp
    exact foldl_align_mem (by decide) halign
  · exact (Family.wellSized_primitive (ht.family (ht.family_eq hd)).2 hkind).2
  · exact TypeTable.refSize_mem

end Sound

/-- How asking for layouts of the types in a sound table changes a memo. -/
structure Grows (tt : TypeTable) (m m' : LayoutMemo) : Prop where
  extension : m.Extends m'
  sound : tt.Sound → m.Sound tt → m'.Sound tt

instance : Std.Refl (Grows tt) := ⟨fun _ => ⟨fun h => h, fun _ h => h⟩⟩

instance : Trans (Grows tt) (Grows tt) (Grows tt) :=
  ⟨fun h h' => ⟨fun hl => h'.extension (h.extension hl), fun ht hs => h'.sound ht (h.sound ht hs)⟩⟩

/-- A layout that was not remembered before is remembered. -/
theorem grows_cons (hd : tt.descriptor t = .ok d) (hl : Describes tt m d l)
    (hnew : m.find? t = none) : Grows tt m ⟨(t, l) :: m.entries⟩ := by
  have hext : m.Extends ⟨(t, l) :: m.entries⟩ := by
    intro s k hs
    rw [find?_cons, if_neg]
    · exact hs
    · rintro rfl
      rw [hnew] at hs
      cases hs
  refine ⟨hext, fun ht hsound => ⟨fun {s k} hk => ?_, fun {s k} hk => ?_⟩⟩
  · rw [find?_cons] at hk
    split at hk
    · rename_i hst
      cases hk
      exact ⟨d, hst ▸ hd, hl.extends (.refl tt) hext⟩
    · obtain ⟨d', hd', hk'⟩ := hsound.describes hk
      exact ⟨d', hd', hk'.extends (.refl tt) hext⟩
  · rw [find?_cons] at hk
    split at hk
    · cases hk
      exact hsound.describes_aligned ht hd hl
    · exact hsound.aligned hk

theorem publish_meets (hd : tt.descriptor t = .ok d) (hl : Describes tt m d l) :
    Meets (Grows tt) (publish t l) m fun l' m' => m'.find? t = some l' := by
  unfold publish
  refine Meets.get_bind ?_
  cases hfind : m.find? t with
  | some first => exact Meets.pure hfind
  | none =>
    refine Meets.change_bind (grows_cons hd hl hfind) (Meets.pure ?_)
    rw [find?_cons, if_pos rfl]

end LayoutMemo

/-! ## Computing layouts -/

namespace Layouts

open LayoutMemo

variable {tt : TypeTable} {m : LayoutMemo} {t : TypeRef} {d : Descriptor}
  {layoutOf : TypeRef → Action LayoutMemo Layout}

/-- What the layouts of inner types are computed by gives remembered layouts. -/
def Remembers (tt : TypeTable) (layoutOf : TypeRef → Action LayoutMemo Layout) : Prop :=
  ∀ t m, Meets (Grows tt) (layoutOf t) m fun l m' => m'.find? t = some l

theorem slot_meets (h : Remembers tt layoutOf) (name : Symbol) (t : TypeRef) (m : LayoutMemo) :
    Meets (Grows tt) (slot tt layoutOf name t) m fun s m' => SlotFor tt m' (name, t) s := by
  unfold slot
  refine Meets.lift_bind fun d hd => Meets.ite (fun hinline => ?_) fun hinline => ?_
  · refine Meets.bind (h t m) fun l m' _ hl => Meets.ite (fun hbits => ?_) fun hbits => ?_
    · exact Meets.pure (.inline ⟨d, hd, .inr ⟨hinline, l, hl, hbits⟩⟩ hl)
    · rw [Bool.not_eq_true] at hbits
      exact Meets.pure (.reference ⟨d, hd, .inr ⟨hinline, l, hl, hbits⟩⟩)
  · rw [Bool.not_eq_true] at hinline
    exact Meets.pure (.reference ⟨d, hd, .inl ⟨hinline, rfl⟩⟩)

theorem product_meets (h : Remembers tt layoutOf) (isMutable : Bool)
    (fields : List (Symbol × TypeRef)) (m : LayoutMemo) :
    Meets (Grows tt) (product tt layoutOf isMutable fields) m fun l m' =>
      Product tt m' isMutable fields l := by
  -- The layout in the making is what the slots of the fields before have become.
  have hfold (draft : Draft) (m : LayoutMemo) :
      Meets (Grows tt) (fields.foldlM (extend tt layoutOf) draft) m
        fun draft' m' => ∃ slots, List.Forall₂ (SlotFor tt m') fields slots ∧
          slots.foldlM Draft.add draft = .ok draft' := by
    induction fields generalizing draft m with
    | nil => exact Meets.pure ⟨[], .nil, rfl⟩
    | cons p fields ih =>
      rw [List.foldlM_cons, extend, bind_assoc]
      refine Meets.bind (slot_meets h p.1 p.2 m) fun s m₁ _ hs => Meets.lift_bind fun draft₁ hadd => ?_
      refine (ih draft₁ m₁).mono fun draft' m₂ hgrows hrest => ?_
      obtain ⟨slots, hslots, hfold⟩ := hrest
      refine ⟨s :: slots, .cons (hs.extends (.refl tt) hgrows.extension) hslots, ?_⟩
      rw [List.foldlM_cons, hadd]
      exact hfold
  unfold product
  refine Meets.bind (hfold Draft.empty m) fun draft m' _ hdraft => Meets.lift fun l hl => ?_
  obtain ⟨slots, hslots, hdraft⟩ := hdraft
  exact ⟨slots, hslots, bind_eq_ok.2 ⟨draft, hdraft, hl⟩⟩

theorem compute_meets (h : Remembers tt layoutOf) (d : Descriptor) (m : LayoutMemo) :
    Meets (Grows tt) (compute tt layoutOf d) m fun l m' => Describes tt m' d l := by
  unfold compute
  unfold Describes
  cases hkind : d.kind with
  | primitive size align => exact Meets.pure rfl
  | abstract => exact Meets.lift_bind fun _ _ => Meets.throw _
  | union => exact Meets.lift_bind fun _ _ => Meets.throw _
  | string => exact Meets.pure rfl
  | simpleVector => exact Meets.pure rfl
  | buffer => exact Meets.pure rfl
  | array => exact Meets.lift fun l hl => hl
  | struct =>
    refine Meets.lift_bind fun fields hfields => ?_
    exact (product_meets h d.isMutable fields m).mono fun l m' _ hl => ⟨fields, hfields, hl⟩
  | tuple =>
    refine Meets.lift_bind fun fields hfields => ?_
    exact (product_meets h d.isMutable fields m).mono fun l m' _ hl => ⟨fields, hfields, hl⟩

theorem memoized_meets {fresh : Descriptor → Action LayoutMemo Layout}
    (h : ∀ d m, Meets (Grows tt) (fresh d) m fun l m' => Describes tt m' d l) :
    Remembers tt fun t => memoized tt t fresh := by
  intro t m
  unfold memoized
  refine Meets.lift_bind fun d hd => Meets.get_bind ?_
  cases hfind : m.find? t with
  | some l => exact Meets.pure hfind
  | none => exact Meets.bind (h d m) fun l m' _ hl => publish_meets hd hl

/-- However deep inline fields nest, what is computed is remembered. -/
theorem within_meets (depth : Nat) : Remembers tt (within tt depth) := by
  induction depth with
  | zero => exact memoized_meets fun _ _ => Meets.throw _
  | succ depth ih => exact memoized_meets (compute_meets ih)

theorem of_meets : Remembers tt (of tt) := within_meets (maxDepth + 1)

theorem isInline_meets (t : TypeRef) (m : LayoutMemo) :
    Meets (Grows tt) (isInline tt t) m fun b m' => Inline tt m' t b := by
  unfold isInline
  refine Meets.lift_bind fun d hd => Meets.ite (fun hinline => ?_) fun hinline => ?_
  · exact Meets.bind (of_meets t m) fun l m' _ hl =>
      Meets.pure ⟨d, hd, .inr ⟨hinline, l, hl, rfl⟩⟩
  · rw [Bool.not_eq_true] at hinline
    exact Meets.pure ⟨d, hd, .inl ⟨hinline, rfl⟩⟩

/-! ## Asking again -/

theorem runOn_memoized_some {l : Layout} {fresh : Descriptor → Action LayoutMemo Layout}
    (hd : tt.descriptor t = .ok d) (hl : m.find? t = some l) :
    (memoized tt t fresh).runOn m = (.ok l, m) := by
  unfold memoized
  rw [hd, Action.runOn_bind_ok (Action.runOn_lift _ m), Action.runOn_bind_ok (Action.runOn_get m), hl]
  rfl

/-- A remembered layout is found without a change. -/
theorem runOn_of {l : Layout} (hd : tt.descriptor t = .ok d) (hl : m.find? t = some l) :
    (of tt t).runOn m = (.ok l, m) :=
  runOn_memoized_some hd hl

/-- What was found out about a type is found out again without a change. -/
theorem runOn_isInline {b : Bool} (h : Inline tt m t b) :
    (isInline tt t).runOn m = (.ok b, m) := by
  obtain ⟨d, hd, ⟨hinline, rfl⟩ | ⟨hinline, l, hl, rfl⟩⟩ := h
  · unfold isInline
    rw [hd]
    show (if d.mayBeInline = true then _ else pure false : Action LayoutMemo Bool).runOn m = _
    rw [hinline]
    rfl
  · unfold isInline
    rw [hd]
    show (if d.mayBeInline = true then of tt t >>= fun l => pure l.isBits
      else pure false : Action LayoutMemo Bool).runOn m = _
    rw [hinline, if_pos rfl, Action.runOn_bind_ok (runOn_of hd hl)]
    rfl

end Layouts

/-! ## Fields of remembered layouts -/

namespace LayoutMemo.Sound

variable {tt : TypeTable} {m : LayoutMemo} {t : TypeRef} {d : Descriptor} {l : Layout}
  {f g : FieldLayout}

/-- The layout of a type with fields, laid out with positive alignments. -/
theorem product_of_mem (h : m.Sound tt) (hl : m.find? t = some l) (hf : f ∈ l.fields) :
    ∃ isMutable fields slots, List.Forall₂ (SlotFor tt m) fields slots ∧ (∀ s ∈ slots, 0 < s.align) ∧
      l = Layout.ofSlots isMutable slots := by
  obtain ⟨d, -, hdesc⟩ := h.describes hl
  rcases hdesc.fields_cases with hnil | ⟨fields, -, hp⟩
  · rw [hnil] at hf
    cases hf
  · obtain ⟨slots, hslots, halign, hl, -⟩ := h.product hp
    exact ⟨d.isMutable, fields, slots, hslots, fun s hs => TypeTable.pos_of_alignment (halign s hs), hl⟩

/-- Every field ends inside the object. -/
theorem end_le (h : m.Sound tt) (hl : m.find? t = some l) (hf : f ∈ l.fields) :
    f.offset + f.size ≤ l.size := by
  obtain ⟨isMutable, fields, slots, -, hpos, rfl⟩ := h.product_of_mem hl hf
  exact Layout.ofSlots_end_le hpos hf

/-- Different fields do not overlap. -/
theorem separate (h : m.Sound tt) (hl : m.find? t = some l) (hf : f ∈ l.fields)
    (hg : g ∈ l.fields) : f = g ∨ Layout.Separate f g := by
  obtain ⟨isMutable, fields, slots, -, hpos, rfl⟩ := h.product_of_mem hl hf
  exact Layout.ofSlots_separate hpos hf hg

/-- Fields follow one another. -/
theorem pairwise_separate (h : m.Sound tt) (hl : m.find? t = some l) :
    l.fields.Pairwise Layout.Separate := by
  obtain ⟨d, -, hdesc⟩ := h.describes hl
  rcases hdesc.fields_cases with hnil | ⟨fields, -, hp⟩
  · rw [hnil]
    exact .nil
  · obtain ⟨slots, -, halign, rfl, -⟩ := h.product hp
    have hpos : ∀ s ∈ slots, 0 < s.align := fun s hs => TypeTable.pos_of_alignment (halign s hs)
    exact (pairwise_placeFrom hpos).imp fun hle => .inl hle

theorem slotFor_of_placed {fields : List (Symbol × TypeRef)} {slots : List Slot}
    {fs : List FieldLayout} (hslots : List.Forall₂ (SlotFor tt m) fields slots)
    (hplaced : List.Forall₂ Slot.Placed slots fs) (hf : f ∈ fs) :
    ∃ s ∈ slots, SlotFor tt m (f.name, f.type) s ∧ s.Placed f := by
  induction hslots generalizing fs with
  | nil =>
    cases hplaced
    cases hf
  | @cons p s fields slots hs _ ih =>
    obtain ⟨g, gs, hp, hrest, rfl⟩ := List.forall₂_cons_left_iff.1 hplaced
    rcases List.mem_cons.1 hf with rfl | hf
    · have hpair : (f.name, f.type) = p := by
        rw [hp.name_eq, hp.type_eq]
        cases hs <;> rfl
      exact ⟨s, List.mem_cons_self, hpair ▸ hs, hp⟩
    · obtain ⟨s', hs', hslot⟩ := ih hrest hf
      exact ⟨s', List.mem_cons_of_mem _ hs', hslot⟩

/-- A field is what its declared type asks for. -/
theorem slotFor (h : m.Sound tt) (hl : m.find? t = some l) (hf : f ∈ l.fields) :
    ∃ s, SlotFor tt m (f.name, f.type) s ∧ s.Placed f := by
  obtain ⟨isMutable, fields, slots, hslots, -, rfl⟩ := h.product_of_mem hl hf
  obtain ⟨s, -, hs⟩ := slotFor_of_placed hslots (placed_placeFrom 0 slots) hf
  exact ⟨s, hs⟩

/-- An inline field has the size of its type, whose values are bits. -/
theorem inline (h : m.Sound tt) (hl : m.find? t = some l) (hf : f ∈ l.fields)
    (hinline : f.isInline = true) :
    ∃ k, m.find? f.type = some k ∧ k.isBits = true ∧ k.size = f.size := by
  obtain ⟨s, hs, hp⟩ := h.slotFor hl hf
  cases hs with
  | inline inline found =>
    obtain ⟨k, hk, hbits⟩ := inline.find?
    rw [found] at hk
    cases hk
    exact ⟨_, found, hbits, hp.size_eq.symm⟩
  | reference _ =>
    have := hp.isInline_eq
    rw [hinline] at this
    cases this

/-- Any other field is a reference. -/
theorem size_reference (h : m.Sound tt) (hl : m.find? t = some l)
    (hf : f ∈ l.fields) (hinline : f.isInline = false) : f.size = refSize := by
  obtain ⟨s, hs, hp⟩ := h.slotFor hl hf
  cases hs with
  | inline _ _ =>
    have := hp.isInline_eq
    rw [hinline] at this
    cases this
  | reference _ => exact hp.size_eq

/-- The fields of bits are bits. -/
theorem inline_of_isBits (h : m.Sound tt) (hl : m.find? t = some l)
    (hbits : l.isBits = true) (hf : f ∈ l.fields) : f.isInline = true := by
  obtain ⟨isMutable, fields, slots, -, -, rfl⟩ := h.product_of_mem hl hf
  exact Layout.ofSlots_inline_of_isBits hbits hf

end LayoutMemo.Sound

end TypedHeap
