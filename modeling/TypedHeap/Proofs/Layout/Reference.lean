import TypedHeap.Proofs.Layout.Memo
import TypedHeap.Proofs.Types.Order

/-!
# Layouts without a memo

The layout of a type follows from its kind, the declarations of its fields and its parameters. Here it
is computed from these alone, by recursion on the types of fields, which come before the type itself.

* `Layouts.plain`: the layout of an instance, given the layouts of the types of its fields.
* `Layouts.reference`: the layout of a type.

Main results: `reference_eq`, by which the recursion has no bound, and `LayoutMemo.Sound.reference_eq_ok`,
by which remembered layouts are those that this recursion gives.
-/

namespace TypedHeap

namespace Layouts

/-! ## Layouts from layouts of fields -/

/-- The slot of a field: inline for immutable bits, a reference for everything else. -/
def plainSlot (tt : TypeTable) (layoutOf : TypeRef → Except Error Layout) (name : Symbol)
    (t : TypeRef) : Except Error Slot := do
  let d ← tt.descriptor t
  if d.mayBeInline then
    let l ← layoutOf t
    return if l.isBits then ⟨name, t, l.size, l.alignment, true⟩ else Slot.reference name t
  return Slot.reference name t

/-- A layout in the making with one more field. -/
def plainExtend (tt : TypeTable) (layoutOf : TypeRef → Except Error Layout) (draft : Draft)
    (field : Symbol × TypeRef) : Except Error Draft := do
  draft.add (← plainSlot tt layoutOf field.1 field.2)

/-- The layout of a product of fields. -/
def plainProduct (tt : TypeTable) (layoutOf : TypeRef → Except Error Layout) (isMutable : Bool)
    (fields : List (Symbol × TypeRef)) : Except Error Layout := do
  let draft ← fields.foldlM (plainExtend tt layoutOf) Draft.empty
  draft.finish isMutable

/-- The layout of an instance, given the layouts of the types of its fields. -/
def plain (tt : TypeTable) (layoutOf : TypeRef → Except Error Layout) (d : Descriptor) :
    Except Error Layout := do
  match d.kind with
  | .primitive size align => return Layout.bits size.toNat align.toNat
  | .abstract | .union =>
    throw (.invalidArgument ((← tt.render d.ref) ++ " is abstract and has no layout"))
  | .string | .simpleVector | .buffer => return Layout.handle refSize refSize []
  | .array => array d
  | .struct => plainProduct tt layoutOf d.isMutable (← structFields d)
  | .tuple => plainProduct tt layoutOf d.isMutable (← tupleFieldsFrom 0 d.params)

/-- The layout of a type, fields nested at most `depth` deep. -/
def referenceWithin (tt : TypeTable) : Nat → TypeRef → Except Error Layout
  | 0, t => .error (.invalidTag t.addr .unregistered)
  | depth + 1, t => do plain tt (referenceWithin tt depth) (← tt.descriptor t)

/-- The layout of a type. The types of fields come before the type, so they nest at most as deep as its
number. -/
def reference (tt : TypeTable) (t : TypeRef) : Except Error Layout := referenceWithin tt t.index t

/-! ## The recursion -/

section Recursion

variable {tt tt' : TypeTable} {s t : TypeRef} {d : Descriptor} {l : Layout} {depth k : Nat}
  {fields : List (Symbol × TypeRef)} {f g : TypeRef → Except Error Layout}

/-- A product that has a layout is laid out slot by slot. -/
theorem plainProduct_eq_ok {isMutable : Bool} : plainProduct tt f isMutable fields = .ok l ↔
    ∃ slots, List.Forall₂ (fun p s => plainSlot tt f p.1 p.2 = .ok s) fields slots ∧
      Layout.placed isMutable slots = .ok l := by
  have hfold (draft : Draft) : fields.foldlM (plainExtend tt f) Draft.empty = .ok draft ↔
      ∃ slots, List.Forall₂ (fun p s => plainSlot tt f p.1 p.2 = .ok s) fields slots ∧
        slots.foldlM Draft.add Draft.empty = .ok draft :=
    foldlM_bind_eq_ok
  rw [plainProduct, bind_eq_ok]
  simp only [hfold, Layout.placed, bind_eq_ok]
  constructor
  · rintro ⟨draft, ⟨slots, hslots, hdraft⟩, hl⟩
    exact ⟨slots, hslots, draft, hdraft, hl⟩
  · rintro ⟨slots, hslots, draft, hdraft, hl⟩
    exact ⟨draft, ⟨slots, hslots, hdraft⟩, hl⟩

/-- The type that a field declaration means is mentioned by the instance. -/
theorem mentions_of_resolve {x : Symbol} {spec : FieldSpec} (hspec : (x, spec) ∈ d.family.fields)
    (h : d.resolve spec = .ok s) : d.Mentions s := by
  cases spec with
  | type u =>
    cases h
    exact .inr ⟨x, hspec⟩
  | param i =>
    obtain ⟨p, hp, h⟩ := bind_eq_ok.1 h
    have hmem : p ∈ d.params := by
      unfold Params.get at hp
      split at hp
      · rename_i q hq
        cases hp
        exact List.mem_of_getElem? hq
      · cases hp
    split at h
    · rename_i u hu
      cases h
      exact .inl (List.mem_filterMap.2 ⟨p, hmem, hu⟩)
    · cases h

theorem mentions_of_structFields (h : structFields d = .ok fields) :
    ∀ p ∈ fields, d.Mentions p.2 := by
  refine forall_mem_of_mapM h fun q hq p hp => ?_
  obtain ⟨s, hs, hp⟩ := bind_eq_ok.1 hp
  cases hp
  exact mentions_of_resolve hq hs

theorem mentions_of_tupleFieldsFrom {ps : Params} (h : tupleFieldsFrom k ps = .ok fields) :
    ∀ p ∈ fields, p.2 ∈ ps.types := by
  induction ps generalizing k fields with
  | nil =>
    cases h
    exact nofun
  | cons q ps ih =>
    rw [tupleFieldsFrom] at h
    split at h
    · rename_i u hu
      obtain ⟨rest, hrest, h⟩ := bind_eq_ok.1 h
      cases h
      have htypes : Params.types (q :: ps) = u :: Params.types ps := List.filterMap_cons_some hu
      rw [htypes, List.forall_mem_cons]
      exact ⟨List.mem_cons_self, fun p hp => List.mem_cons_of_mem u (ih hrest p hp)⟩
    · cases h

/-- An instance mentions the types of its fields. -/
theorem FieldsOf.mentions (h : FieldsOf d fields) : ∀ p ∈ fields, d.Mentions p.2 := by
  rcases h with ⟨-, hfields⟩ | ⟨-, hfields⟩
  · exact mentions_of_structFields hfields
  · exact fun p hp => .inl (mentions_of_tupleFieldsFrom hfields p hp)

/-- A struct or tuple has the layout of the product of its fields. -/
theorem FieldsOf.plain_eq (h : FieldsOf d fields) : plain tt f d = plainProduct tt f d.isMutable fields := by
  unfold plain
  rcases h with ⟨hkind, hfields⟩ | ⟨hkind, hfields⟩
  · rw [hkind, hfields]
    rfl
  · rw [hkind, hfields]
    rfl

/-- The layout of an instance depends on the layouts of the types that it mentions. -/
theorem plain_congr (h : ∀ s, d.Mentions s → f s = g s) : plain tt f d = plain tt g d := by
  have hproduct {fields : List (Symbol × TypeRef)} (hfields : FieldsOf d fields) :
      plainProduct tt f d.isMutable fields = plainProduct tt g d.isMutable fields := by
    unfold plainProduct
    rw [foldlM_congr fun p hp draft => ?_]
    unfold plainExtend plainSlot
    rw [h p.2 (hfields.mentions p hp)]
  unfold plain
  cases hkind : d.kind with
  | struct =>
    cases hfields : structFields d with
    | error e => rfl
    | ok fields => exact hproduct (.inl ⟨hkind, hfields⟩)
  | tuple =>
    cases hfields : tupleFieldsFrom 0 d.params with
    | error e => rfl
    | ok fields => exact hproduct (.inr ⟨hkind, hfields⟩)
  | _ => rfl

/-- With a bound that is at least the number of the type, the bound does not matter. -/
theorem referenceWithin_eq (ho : tt.Ordered) (hle : t.index ≤ depth) :
    referenceWithin tt depth t = reference tt t := by
  induction depth using Nat.strongRecOn generalizing t with
  | ind depth ih =>
    obtain ⟨n, hn⟩ := t.exists_index_eq
    obtain ⟨k, rfl⟩ : ∃ k, depth = k + 1 := ⟨depth - 1, by omega⟩
    rw [reference, hn, referenceWithin, referenceWithin]
    cases hd : tt.descriptor t with
    | error e => rfl
    | ok d =>
      refine plain_congr fun s hs => ?_
      have hlt := ho.earlier hd hs
      rw [ih k (by omega) (by omega), ih n (by omega) (by omega)]

/-- The layout of a type is that of its instance, given the layouts of the types that it mentions: the
recursion has no bound. -/
theorem reference_eq (ho : tt.Ordered) (t : TypeRef) :
    reference tt t = tt.descriptor t >>= plain tt (reference tt) := by
  obtain ⟨n, hn⟩ := t.exists_index_eq
  rw [reference, hn, referenceWithin]
  cases hd : tt.descriptor t with
  | error e => rfl
  | ok d =>
    refine plain_congr fun s hs => referenceWithin_eq ho ?_
    have hlt := ho.earlier hd hs
    omega

/-- What is known of all mentioned types in one table is known in a table that extends it. -/
theorem plain_extends (hext : tt.Extends tt') (h : ∀ s l, f s = .ok l → g s = .ok l)
    (hl : plain tt f d = .ok l) : plain tt' g d = .ok l := by
  have hslot {p : Symbol × TypeRef} {s : Slot} (hs : plainSlot tt f p.1 p.2 = .ok s) :
      plainSlot tt' g p.1 p.2 = .ok s := by
    obtain ⟨d, hd, hs⟩ := bind_eq_ok.1 hs
    refine bind_eq_ok.2 ⟨d, hext.descriptor hd, ?_⟩
    by_cases hinline : d.mayBeInline = true
    · rw [if_pos hinline] at hs ⊢
      obtain ⟨k, hk, hs⟩ := bind_eq_ok.1 hs
      exact bind_eq_ok.2 ⟨k, h _ _ hk, hs⟩
    · rw [if_neg hinline] at hs ⊢
      exact hs
  have hproduct {fields : List (Symbol × TypeRef)} (hp : plainProduct tt f d.isMutable fields = .ok l) :
      plainProduct tt' g d.isMutable fields = .ok l := by
    obtain ⟨slots, hslots, hp⟩ := plainProduct_eq_ok.1 hp
    exact plainProduct_eq_ok.2 ⟨slots, hslots.imp fun _ _ => hslot, hp⟩
  unfold plain at hl ⊢
  cases hkind : d.kind <;> rw [hkind] at hl
  case abstract | union =>
    obtain ⟨_, -, hl⟩ := bind_eq_ok.1 hl
    cases hl
  case struct | tuple =>
    obtain ⟨fields, hfields, hl⟩ := bind_eq_ok.1 hl
    exact bind_eq_ok.2 ⟨fields, hfields, hproduct hl⟩
  all_goals exact hl

/-- The layout of a type stays what it is when other types are added. -/
theorem reference_extends (hext : tt.Extends tt') (hl : reference tt t = .ok l) :
    reference tt' t = .ok l := by
  have hwithin (depth : Nat) : ∀ t l, referenceWithin tt depth t = .ok l →
      referenceWithin tt' depth t = .ok l := by
    induction depth with
    | zero => exact nofun
    | succ depth ih =>
      intro t l hl
      obtain ⟨d, hd, hl⟩ := bind_eq_ok.1 hl
      exact bind_eq_ok.2 ⟨d, hext.descriptor hd, plain_extends hext ih hl⟩
  exact hwithin t.index t l hl

/-! ## Fields -/

theorem exists_structFields (hfields : TypeTable.checkFieldParams d.family d.params = .ok ()) :
    ∃ fields, structFields d = .ok fields := by
  refine exists_mapM fun q hq => ?_
  have hq := forM_eq_ok.1 hfields q hq
  obtain ⟨x, spec⟩ := q
  cases spec with
  | type s => exact ⟨(x, s), rfl⟩
  | param i =>
    obtain ⟨p, hp, hq⟩ := bind_eq_ok.1 hq
    cases hs : p.type? with
    | none =>
      rw [hs] at hq
      cases hq
    | some s =>
      refine ⟨(x, s), bind_eq_ok.2 ⟨s, bind_eq_ok.2 ⟨p, hp, ?_⟩, rfl⟩⟩
      rw [hs]
      rfl

theorem exists_tupleFieldsFrom {ps : Params} (hparams : TypeTable.checkTupleParams ps = .ok ()) (k : Nat) :
    ∃ fields, tupleFieldsFrom k ps = .ok fields := by
  have hall : ∀ p ∈ ps, p.type?.isSome = true := by
    unfold TypeTable.checkTupleParams at hparams
    split at hparams
    · rename_i h
      exact List.all_eq_true.1 h
    · cases hparams
  clear hparams
  induction ps generalizing k with
  | nil => exact ⟨[], rfl⟩
  | cons p ps ih =>
    rw [List.forall_mem_cons] at hall
    obtain ⟨s, hs⟩ := Option.isSome_iff_exists.1 hall.1
    obtain ⟨rest, hrest⟩ := ih (k + 1) hall.2
    rw [tupleFieldsFrom, hs]
    exact exists_bind hrest ⟨_, rfl⟩

/-- A struct or tuple has fields. -/
theorem exists_fieldsOf (ho : tt.Ordered) (hd : tt.descriptor t = .ok d) (hkind : d.kind = .struct ∨ d.kind = .tuple) :
    ∃ fields, FieldsOf d fields := by
  rcases hkind with hkind | hkind
  · obtain ⟨fields, hfields⟩ := exists_structFields (ho.struct hd hkind)
    exact ⟨fields, .inl ⟨hkind, hfields⟩⟩
  · obtain ⟨fields, hfields⟩ := exists_tupleFieldsFrom (ho.tuple hd hkind) 0
    exact ⟨fields, .inr ⟨hkind, hfields⟩⟩

/-- Types whose values may be stored inline have objects. -/
theorem isInstantiable_of_mayBeInline (h : d.mayBeInline = true) : d.kind.isInstantiable = true := by
  unfold Descriptor.mayBeInline at h
  cases hkind : d.kind <;> rw [hkind] at h <;> first | rfl | simp at h

end Recursion

end Layouts

/-! ## Remembered layouts -/

open Layouts

namespace LayoutMemo

variable {tt : TypeTable} {m : LayoutMemo} {t : TypeRef} {l : Layout}

/-- What became of a field is what becomes of it when the layout of its type is that of the recursion. -/
theorem plainSlot_of_slotFor {p : Symbol × TypeRef} {s : Slot} (hs : SlotFor tt m p s)
    (h : ∀ l, m.find? p.2 = some l → reference tt p.2 = .ok l) :
    plainSlot tt (reference tt) p.1 p.2 = .ok s := by
  cases hs with
  | @inline l inline found =>
    obtain ⟨d, hd, ⟨-, hb⟩ | ⟨hinline, k, hk, hbits⟩⟩ := inline
    · cases hb
    · rw [found] at hk
      cases hk
      refine bind_eq_ok.2 ⟨d, hd, ?_⟩
      rw [if_pos hinline]
      refine bind_eq_ok.2 ⟨l, h l found, ?_⟩
      rw [hbits]
      rfl
  | reference outside =>
    obtain ⟨d, hd, ⟨hinline, -⟩ | ⟨hinline, k, hk, hbits⟩⟩ := outside
    · refine bind_eq_ok.2 ⟨d, hd, ?_⟩
      rw [hinline]
      rfl
    · refine bind_eq_ok.2 ⟨d, hd, ?_⟩
      rw [if_pos hinline]
      refine bind_eq_ok.2 ⟨k, h k hk, ?_⟩
      rw [hbits]
      rfl

/-- A remembered layout is the one that the type has without a memo. -/
theorem Sound.reference_eq_ok (h : m.Sound tt) (ho : tt.Ordered) (hl : m.find? t = some l) :
    reference tt t = .ok l := by
  -- Remembered layouts of fields are correct because the types of fields come before the type.
  induction hn : t.index using Nat.strongRecOn generalizing t l with
  | ind n ih =>
    obtain ⟨d, hd, hdesc⟩ := h.describes hl
    rw [reference_eq ho, hd]
    have hproduct {fields : List (Symbol × TypeRef)} (hfields : FieldsOf d fields)
        (hp : Product tt m d.isMutable fields l) :
        plainProduct tt (reference tt) d.isMutable fields = .ok l := by
      obtain ⟨slots, hslots, hp⟩ := hp
      have hmentions := hfields.mentions
      refine plainProduct_eq_ok.2 ⟨slots, ?_, hp⟩
      clear hl hdesc hfields hp
      induction hslots with
      | nil => exact .nil
      | cons hs _ ihs =>
        rw [List.forall_mem_cons] at hmentions
        refine .cons (plainSlot_of_slotFor hs fun k hk => ?_) (ihs hmentions.2)
        exact ih _ (hn ▸ ho.earlier hd hmentions.1) hk rfl
    show plain tt (reference tt) d = .ok l
    unfold Describes at hdesc
    unfold plain
    cases hkind : d.kind <;> simp only [hkind] at hdesc ⊢
    case struct =>
      obtain ⟨fields, hfields, hp⟩ := hdesc
      exact bind_eq_ok.2 ⟨fields, hfields, hproduct (.inl ⟨hkind, hfields⟩) hp⟩
    case tuple =>
      obtain ⟨fields, hfields, hp⟩ := hdesc
      exact bind_eq_ok.2 ⟨fields, hfields, hproduct (.inr ⟨hkind, hfields⟩) hp⟩
    case array => exact hdesc
    all_goals
      rw [hdesc]
      rfl

end LayoutMemo

end TypedHeap
