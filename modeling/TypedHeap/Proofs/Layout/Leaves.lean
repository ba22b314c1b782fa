import TypedHeap.Proofs.Layout.Simple
import TypedHeap.Proofs.Registry
import TypedHeap.Proofs.Scalar

/-!
# Leaves and padding

A value is made of leaves: bits of primitive types, at whatever depth of inline fields they lie, and references.
Bytes between them are padding. A value is in normal form if its padding is zero and if its leaves are bytes that
can be read; values in normal form may be put into each other, and stay so while the registry grows.

* `Registry.Leaf`, `Registry.Covered`: the leaves of a type, and the bytes that belong to one.
* `Registry.Normal`: a value in normal form.

Main results: `Normal.zeros`, `Normal.congr`, `Normal.field`, `Normal.overwrite`.
-/

namespace TypedHeap

/-! ## Bytes -/

/-- A part of a run of bytes. -/
def cut (b : Nat → UInt8) (off n : Nat) : List UInt8 := (List.range n).map fun k => b (off + k)

theorem cut_congr {b b' : Nat → UInt8} {off off' n : Nat} (h : ∀ k, k < n → b' (off' + k) = b (off + k)) :
    cut b' off' n = cut b off n :=
  List.map_congr_left fun k hk => h k (List.mem_range.1 hk)

theorem cut_zeros {b : Nat → UInt8} {off n : Nat} (h : ∀ k, k < n → b (off + k) = 0) :
    cut b off n = List.replicate n 0 := by
  refine List.eq_replicate_iff.2 ⟨by simp [cut], fun c hc => ?_⟩
  obtain ⟨k, hk, rfl⟩ := List.mem_map.1 hc
  exact h k (List.mem_range.1 hk)

theorem cut_list {bs : List UInt8} {n : Nat} (h : bs.length = n) : cut (fun k => bs[k]?.getD 0) 0 n = bs := by
  subst h
  refine List.ext_getElem (by simp [cut]) fun k _ hk => ?_
  simp [cut, List.getElem?_eq_getElem hk]

/-- Zeros are a scalar of every kind but one, given a symbol with the first key. -/
theorem ScalarKind.decode_zeros {σ : SymbolTable} {s : Symbol} (k : ScalarKind) (hk : k ≠ .dataType)
    (hs : σ.find? 0 = some s) : ∃ x, k.decode σ (List.replicate k.size 0) = .ok x := by
  cases k with
  | symbol =>
    have hword : ofWord σ .symbol 0 = .ok s := by
      simp only [ofWord, hs]
    exact ⟨s, hword⟩
  | dataType => exact absurd rfl hk
  | _ => exact ⟨_, rfl⟩

namespace Registry

variable {r r' : Registry} {σ σ' : SymbolTable} {t u : TypeRef} {l : Layout} {e : FieldLayout} {k n off : Nat}
  {leaf : Option TypeRef} {b b' : Nat → UInt8}

/-! ## Leaves -/

/-- Values of a type have a leaf of `n` bytes at an offset: bits of a primitive type, or a reference, for which
no type is named. -/
inductive Leaf (r : Registry) : TypeRef → Nat → Nat → Option TypeRef → Prop
  | primitive {t : TypeRef} {d : Descriptor} {size align : UInt64} (descriptor : r.table.descriptor t = .ok d)
      (kind : d.kind = .primitive size align) : Leaf r t 0 size.toNat (some t)
  | reference {t : TypeRef} {l : Layout} {e : FieldLayout} (layout : r.layouts.find? t = some l)
      (field : e ∈ l.fields) (outside : e.isInline = false) : Leaf r t e.offset e.size none
  | inline {t : TypeRef} {l : Layout} {e : FieldLayout} {off n : Nat} {leaf : Option TypeRef}
      (layout : r.layouts.find? t = some l) (field : e ∈ l.fields) (inline : e.isInline = true)
      (inner : Leaf r e.type off n leaf) : Leaf r t (e.offset + off) n leaf

/-- A byte of a value that belongs to a leaf. The others are padding. -/
def Covered (r : Registry) (t : TypeRef) (k : Nat) : Prop :=
  ∃ off n leaf, r.Leaf t off n leaf ∧ off ≤ k ∧ k < off + n

/-- Primitive types have no fields. -/
theorem Sound.primitive_layout {d : Descriptor} {size align : UInt64} (hr : r.Sound)
    (hd : r.table.descriptor t = .ok d) (hkind : d.kind = .primitive size align)
    (hl : r.layouts.find? t = some l) : l = Layout.bits size.toNat align.toNat := by
  obtain ⟨d', hd', hdesc⟩ := hr.layouts.describes hl
  cases hd.symm.trans hd'
  rw [Layouts.Describes, hkind] at hdesc
  exact hdesc

theorem Leaf.extends (hleaf : r.Leaf t off n leaf) (he : r.Extends r') : r'.Leaf t off n leaf := by
  induction hleaf with
  | primitive descriptor kind => exact .primitive (he.types.descriptor descriptor) kind
  | reference layout field outside => exact .reference (he.layouts layout) field outside
  | inline layout field inline _ ih => exact .inline (he.layouts layout) field inline ih

namespace Leaf

/-- A registry that has grown knows no more leaves of a type whose layout was remembered. -/
theorem of_extends (hleaf : r'.Leaf t off n leaf) (hr : r.Sound) (he : r.Extends r')
    (hl : r.layouts.find? t = some l) : r.Leaf t off n leaf := by
  induction hleaf generalizing l with
  | primitive descriptor kind =>
    obtain ⟨d, hd, -⟩ := hr.layouts.describes hl
    cases descriptor.symm.trans (he.types.descriptor hd)
    exact .primitive hd kind
  | reference layout field outside =>
    cases layout.symm.trans (he.layouts hl)
    exact .reference hl field outside
  | inline layout field inline _ ih =>
    cases layout.symm.trans (he.layouts hl)
    obtain ⟨k, hk, -, -⟩ := hr.layouts.inline hl field inline
    exact .inline hl field inline (ih hk)

/-- Leaves end inside the value. -/
theorem end_le (hleaf : r.Leaf t off n leaf) (hr : r.Sound) (hl : r.layouts.find? t = some l) :
    off + n ≤ l.size := by
  induction hleaf generalizing l with
  | @primitive t d size align descriptor kind =>
    rw [hr.primitive_layout descriptor kind hl, Layout.bits]
    exact Nat.le_of_eq (Nat.zero_add size.toNat)
  | reference layout field =>
    cases layout.symm.trans hl
    exact hr.layouts.end_le hl field
  | inline layout field inline _ ih =>
    cases layout.symm.trans hl
    obtain ⟨k, hk, -, hsize⟩ := hr.layouts.inline hl field inline
    have hinner := ih hk
    have houter := hr.layouts.end_le hl field
    omega

/-- A leaf of a value lies in a field or beside it. -/
theorem cases_field (hleaf : r.Leaf t off n leaf) (hr : r.Sound) (hl : r.layouts.find? t = some l)
    (he : e ∈ l.fields) :
    (e.isInline = true ∧ ∃ off', off = e.offset + off' ∧ r.Leaf e.type off' n leaf) ∨
      (e.isInline = false ∧ leaf = none) ∨ off + n ≤ e.offset ∨ e.offset + e.size ≤ off := by
  cases hleaf with
  | primitive descriptor kind =>
    rw [hr.primitive_layout descriptor kind hl] at he
    cases he
  | reference layout field outside =>
    cases layout.symm.trans hl
    rcases hr.layouts.separate hl he field with rfl | hsep
    · exact .inr (.inl ⟨outside, rfl⟩)
    · exact .inr (.inr hsep.symm)
  | @inline _ l' g off _ _ layout field inline inner =>
    cases layout.symm.trans hl
    rcases hr.layouts.separate hl he field with rfl | hsep
    · exact .inl ⟨inline, off, rfl, inner⟩
    · obtain ⟨k, hk, -, hsize⟩ := hr.layouts.inline hl field inline
      have hinner := inner.end_le hr hk
      rcases hsep with hsep | hsep
      · exact .inr (.inr (.inr (by omega)))
      · exact .inr (.inr (.inl (by omega)))

/-- A value of a primitive type is a leaf, and has no other. -/
theorem of_primitive {d : Descriptor} {size align : UInt64} (hleaf : r.Leaf t off n leaf) (hr : r.Sound)
    (hd : r.table.descriptor t = .ok d) (hkind : d.kind = .primitive size align) :
    off = 0 ∧ n = size.toNat ∧ leaf = some t := by
  cases hleaf with
  | primitive descriptor kind =>
    cases descriptor.symm.trans hd
    cases kind.symm.trans hkind
    exact ⟨rfl, rfl, rfl⟩
  | reference layout field | inline layout field =>
    rw [hr.primitive_layout hd hkind layout] at field
    cases field

/-- A leaf of a scalar's type is as large as the scalar. -/
theorem size_scalar {k : ScalarKind} (hleaf : r.Leaf t off n (some k.type)) (hr : r.Sound) : n = k.size := by
  generalize hu : some k.type = leaf at hleaf
  induction hleaf with
  | primitive descriptor kind =>
    cases hu
    cases (Layouts.descriptor_scalar hr.types k).symm.trans descriptor
    cases k <;> cases kind <;> rfl
  | reference => cases hu
  | inline _ _ _ _ ih => exact ih hu

end Leaf

theorem Covered.extends (hk : r.Covered t k) (he : r.Extends r') : r'.Covered t k := by
  obtain ⟨off, n, leaf, hleaf, hin⟩ := hk
  exact ⟨off, n, leaf, hleaf.extends he, hin⟩

/-! ## Normal form -/

/-- Values of a type whose padding is zero, and whose leaves are bytes that can be read. Zeros are no type, so
nothing is said about leaves that hold types. -/
structure Normal (r : Registry) (σ : SymbolTable) (t : TypeRef) (b : Nat → UInt8) : Prop where
  padding : ∀ {l k}, r.layouts.find? t = some l → k < l.size → ¬r.Covered t k → b k = 0
  scalars : ∀ {k : ScalarKind} {off n}, r.Leaf t off n (some k.type) → k ≠ .dataType →
    ∃ x, k.decode σ (cut b off k.size) = .ok x

namespace Normal

/-- Zeros are a value in normal form. -/
theorem zeros {s : Symbol} (hr : r.Sound) (hs : σ.find? 0 = some s) (hl : r.layouts.find? t = some l)
    (hzero : ∀ k, k < l.size → b k = 0) : r.Normal σ t b where
  padding hl' hk _ := by
    cases hl.symm.trans hl'
    exact hzero _ hk
  scalars {k off n} hleaf hk := by
    have hend := hleaf.end_le hr hl
    rw [hleaf.size_scalar hr] at hend
    rw [cut_zeros fun j hj => hzero _ (by omega)]
    exact k.decode_zeros hk hs

/-- Equal bytes are in normal form too, whatever was learned meanwhile. -/
theorem congr (hb : r.Normal σ t b) (hr : r.Sound) (he : r.Extends r') (hσ : σ.Grows σ')
    (hl : r.layouts.find? t = some l) (hbyte : ∀ k, k < l.size → b' k = b k) : r'.Normal σ' t b' where
  padding hl' hk hpadding := by
    cases hl'.symm.trans (he.layouts hl)
    rw [hbyte _ hk]
    exact hb.padding hl hk fun hcovered => hpadding (hcovered.extends he)
  scalars {k off n} hleaf hk := by
    have hleaf := hleaf.of_extends hr he hl
    have hend := hleaf.end_le hr hl
    rw [hleaf.size_scalar hr] at hend
    obtain ⟨x, hx⟩ := hb.scalars hleaf hk
    refine ⟨x, ScalarKind.decode_grows hσ ?_⟩
    rw [cut_congr fun j hj => hbyte _ (by omega)]
    exact hx

/-- An inline field of a value is a value. -/
theorem field (hb : r.Normal σ t b) (hr : r.Sound) (hl : r.layouts.find? t = some l) (he : e ∈ l.fields)
    (hinline : e.isInline = true) : r.Normal σ e.type fun k => b (e.offset + k) where
  padding {l' k} hl' hk hpadding := by
    obtain ⟨l'', hl'', -, hsize⟩ := hr.layouts.inline hl he hinline
    cases hl'.symm.trans hl''
    have hend := hr.layouts.end_le hl he
    refine hb.padding hl (by omega) ?_
    rintro ⟨off, n, leaf, hleaf, hlo, hhi⟩
    rcases hleaf.cases_field hr hl he with ⟨-, off', rfl, hinner⟩ | ⟨houtside, -⟩ | hbeside
    · exact hpadding ⟨off', n, leaf, hinner, by omega, by omega⟩
    · rw [hinline] at houtside
      cases houtside
    · omega
  scalars {k off n} hleaf hk := by
    obtain ⟨x, hx⟩ := hb.scalars (.inline hl he hinline hleaf) hk
    refine ⟨x, ?_⟩
    rw [← hx]
    exact congrArg _ (cut_congr fun j _ => congrArg b (by omega))

/-- A field of a value is overwritten, by a reference or by a value. -/
theorem overwrite (hb : r.Normal σ t b) (hr : r.Sound) (hl : r.layouts.find? t = some l) (he : e ∈ l.fields)
    (hbeside : ∀ k, k < l.size → k < e.offset ∨ e.offset + e.size ≤ k → b' k = b k)
    (hinner : e.isInline = true → r.Normal σ e.type fun k => b' (e.offset + k)) : r.Normal σ t b' where
  padding {l' k} hl' hk hpadding := by
    cases hl.symm.trans hl'
    by_cases hin : e.offset ≤ k ∧ k < e.offset + e.size
    · cases hinline : e.isInline with
      | false => exact absurd ⟨e.offset, e.size, none, .reference hl he hinline, hin⟩ hpadding
      | true =>
        obtain ⟨l', hl', -, hsize⟩ := hr.layouts.inline hl he hinline
        obtain ⟨j, rfl⟩ := Nat.exists_eq_add_of_le hin.1
        refine (hinner hinline).padding hl' (by omega) ?_
        rintro ⟨off, n, leaf, hleaf, hlo, hhi⟩
        exact hpadding ⟨_, n, leaf, .inline hl he hinline hleaf, by omega, by omega⟩
    · rw [hbeside k hk (by omega)]
      exact hb.padding hl hk hpadding
  scalars {k off n} hleaf hk := by
    have hend := hleaf.end_le hr hl
    rw [hleaf.size_scalar hr] at hend
    have hn := hleaf.size_scalar hr
    rcases hleaf.cases_field hr hl he with ⟨hinline, off', rfl, hfield⟩ | ⟨-, hnone⟩ | haside
    · obtain ⟨x, hx⟩ := (hinner hinline).scalars hfield hk
      refine ⟨x, ?_⟩
      rw [← hx]
      exact congrArg _ (cut_congr fun j _ => congrArg b' (by omega))
    · cases hnone
    · obtain ⟨x, hx⟩ := hb.scalars hleaf hk
      refine ⟨x, ?_⟩
      rw [← hx]
      exact congrArg _ (cut_congr fun j hj => hbeside _ (by omega) (by omega))

/-- A scalar is a value in normal form. -/
theorem scalar {k : ScalarKind} (hr : r.Sound) (hk : k ≠ .dataType → ∃ x, k.decode σ (cut b 0 k.size) = .ok x) :
    r.Normal σ k.type b := by
  have hd := Layouts.descriptor_scalar hr.types k
  constructor
  · intro l j hl hj hpadding
    refine absurd ⟨0, (UInt64.ofNat k.size).toNat, some k.type, .primitive hd rfl, Nat.zero_le j, ?_⟩ hpadding
    rw [hr.primitive_layout hd rfl hl] at hj
    rw [Nat.zero_add]
    exact hj
  · intro k' off n hleaf hne
    obtain ⟨rfl, -, htype⟩ := hleaf.of_primitive hr hd rfl
    cases ScalarKind.type_injective (Option.some.inj htype)
    exact hk hne

end Normal

end Registry

end TypedHeap
