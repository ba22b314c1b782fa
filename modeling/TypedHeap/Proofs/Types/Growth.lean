import Mathlib.Logic.Relation
import TypedHeap.Proofs.Action
import TypedHeap.Types.Declare

/-!
# How a type table grows

Types are only ever added. A table changes in two ways, by a new family and by a new instance of a
family, and everything that operations on a table do is a sequence of such steps.

* `TypeTable.Extends`: nothing that was registered is lost or means anything else.
* `TypeTable.Normal`: the member lists that unions have.
* `TypeTable.Step`, `TypeTable.Path`: one addition, with all that is checked before it is made, and a
  sequence of them.
* `TypeTable.Sound`: what holds of every table that grows out of the builtin one. Descriptors stand
  at their own numbers, the instance list agrees with them, a name has one family, array types
  have an element type and a rank, and unions are in normal form.

Main results: `Step.extends`, `Step.sound`, `Path.sound`, `sound_builtin`.
-/

namespace TypedHeap

/-- Bits take up some space and are aligned in one of the ways that a declaration may ask for, and
only structs are mutable. -/
def Family.isWellFormed (f : Family) : Bool :=
  match f.kind with
  | .primitive size align => (0 < size ∧ align.toNat ∈ TypeTable.alignments) && !f.isMutable
  | .struct => true
  | .tuple | .abstract | .union | .string | .simpleVector | .array | .buffer => !f.isMutable

theorem Family.wellSized_primitive {f : Family} {size align : UInt64} (h : f.isWellFormed = true)
    (hkind : f.kind = .primitive size align) : 0 < size ∧ align.toNat ∈ TypeTable.alignments := by
  rw [isWellFormed, hkind] at h
  exact of_decide_eq_true (Bool.and_eq_true_iff.1 h).1

/-- Unions are not declared. -/
theorem DeclarationKind.typeKind_ne_union (k : DeclarationKind) : k.typeKind ≠ .union := by
  cases k <;> nofun

theorem Family.struct_of_isMutable {f : Family} (h : f.isWellFormed = true)
    (hmutable : f.isMutable = true) : f.kind = .struct := by
  cases hkind : f.kind with
  | struct => rfl
  | primitive =>
    rw [isWellFormed, hkind, hmutable] at h
    cases (Bool.and_eq_true_iff.1 h).2
  | _ =>
    rw [isWellFormed, hkind, hmutable] at h
    cases h

namespace TypeTable

/-! ## Descriptors and their numbers -/

variable {tt tt' : TypeTable} {s t : TypeRef} {d : Descriptor} {f : Family} {ps : Params}

theorem descriptor_eq_ok : tt.descriptor t = .ok d ↔ tt.types[t.index - 1]? = some d := by
  unfold descriptor
  split
  · rename_i d' h
    rw [h]
    simp
  · rename_i h
    rw [h]
    simp

/-- A reference was handed out exactly if it has a descriptor. -/
theorem contains_iff : tt.contains t = true ↔ ∃ d, tt.descriptor t = .ok d := by
  have hpos := t.pos
  have hlt : t.index ≤ tt.types.size ↔ t.index - 1 < tt.types.size := by omega
  simp only [contains, decide_eq_true_eq, hlt, descriptor_eq_ok, Array.getElem?_eq_some_iff]
  exact ⟨fun h => ⟨_, h, rfl⟩, fun ⟨_, h, _⟩ => h⟩

theorem index_of_nextRef (h : tt.nextRef = .ok t) : t.index = tt.types.size + 1 := by
  unfold nextRef at h
  split at h
  · rename_i t' ht'
    cases h
    exact TypeRef.index_of_ofIndex? ht'
  · cases h

/-- The descriptors of a table after an addition: the new one, and those that were there before. -/
theorem descriptor_addInstance (h : tt.nextRef = .ok t) :
    (tt.addInstance t f ps).descriptor s = .ok d ↔
      tt.descriptor s = .ok d ∨ (s = t ∧ d = ⟨t, f, ps⟩) := by
  have hindex := index_of_nextRef h
  have hpos := s.pos
  simp only [descriptor_eq_ok, addInstance, Array.getElem?_push]
  by_cases hs : s.index - 1 = tt.types.size
  · have hst : s = t := TypeRef.ext (by omega)
    subst hst
    rw [if_pos hs, Array.getElem?_eq_none (by omega)]
    simp [eq_comm]
  · have hst : s ≠ t := by rintro rfl; omega
    rw [if_neg hs]
    simp [hst]

theorem family?_addFamily (name : Symbol) :
    (tt.addFamily f).family? name = if f.name = name then some f else tt.family? name := by
  by_cases h : f.name = name <;> simp [family?, addFamily, h]

theorem instance?_addInstance (name : Symbol) (qs : Params) :
    (tt.addInstance t f ps).instance? name qs =
      if f.name = name ∧ ps = qs then some t else tt.instance? name qs := by
  simp only [instance?, addInstance, List.lookup_cons]
  by_cases h : f.name = name ∧ ps = qs
  · obtain ⟨rfl, rfl⟩ := h
    simp
  · have hne : ((name, qs) == (f.name, ps)) = false := by
      simp only [beq_eq_false_iff_ne, ne_eq, Prod.mk.injEq]
      rintro ⟨rfl, rfl⟩
      exact h ⟨rfl, rfl⟩
    rw [hne, if_neg h]

/-! ## Extension -/

/-- What one table says, the other says too. -/
structure Extends (tt tt' : TypeTable) : Prop where
  descriptor : ∀ {t d}, tt.descriptor t = .ok d → tt'.descriptor t = .ok d
  family : ∀ {name f}, tt.family? name = some f → tt'.family? name = some f
  instances : ∀ {name ps t}, tt.instance? name ps = some t → tt'.instance? name ps = some t

theorem Extends.refl (tt : TypeTable) : tt.Extends tt := ⟨id, id, id⟩

theorem Extends.trans {tt'' : TypeTable} (h : tt.Extends tt') (h' : tt'.Extends tt'') :
    tt.Extends tt'' :=
  ⟨fun hd => h'.descriptor (h.descriptor hd), fun hf => h'.family (h.family hf),
    fun hi => h'.instances (h.instances hi)⟩

theorem Extends.contains (h : tt.Extends tt') (ht : tt.contains t = true) :
    tt'.contains t = true := by
  rw [contains_iff] at ht ⊢
  obtain ⟨d, hd⟩ := ht
  exact ⟨d, h.descriptor hd⟩

theorem Extends.renderWithin (h : tt.Extends tt') {depth : Nat} {text : String}
    (htext : tt.renderWithin depth t = .ok text) : tt'.renderWithin depth t = .ok text := by
  induction depth generalizing t text with
  | zero => cases htext
  | succ depth ih =>
    unfold TypeTable.renderWithin at htext ⊢
    obtain ⟨d, hd, htext⟩ := bind_eq_ok.1 htext
    refine bind_eq_ok.2 ⟨d, h.descriptor hd, ?_⟩
    split at htext
    · rename_i hplain
      rw [if_pos hplain]
      exact htext
    · rename_i hplain
      rw [if_neg hplain]
      obtain ⟨parts, hparts, htext⟩ := bind_eq_ok.1 htext
      refine bind_eq_ok.2 ⟨parts, mapM_eq_ok.2 ((mapM_eq_ok.1 hparts).imp fun p text hp => ?_), htext⟩
      cases p with
      | type s => exact ih hp
      | _ => exact hp

/-- A type is shown as it was before. -/
theorem Extends.render (h : tt.Extends tt') {text : String} (htext : tt.render t = .ok text) :
    tt'.render t = .ok text :=
  h.renderWithin htext

/-! ## Unions in normal form -/

/-- One type comes before another in the members of a union: by text, and by number where the texts
agree. -/
def Precedes (tt : TypeTable) (s t : TypeRef) : Prop :=
  ∃ x y, tt.render s = .ok x ∧ tt.render t = .ok y ∧ Member.before ⟨x, s⟩ ⟨y, t⟩ = true

theorem Precedes.extends (h : tt.Precedes s t) (hext : tt.Extends tt') : tt'.Precedes s t := by
  obtain ⟨x, y, hx, hy, hbefore⟩ := h
  exact ⟨x, y, hext.render hx, hext.render hy, hbefore⟩

/-- The members of a union stand in order, without repetitions. None of them is a union itself, or the
type that has everything below it, and one alone needs no union. -/
structure Normal (tt : TypeTable) (ts : List TypeRef) : Prop where
  sorted : ts.Pairwise tt.Precedes
  atomic : ∀ t ∈ ts, ∃ d, tt.descriptor t = .ok d ∧ d.kind ≠ .union
  proper : Builtin.any ∉ ts
  several : ts.length ≠ 1

theorem Normal.extends {ts : List TypeRef} (h : tt.Normal ts) (hext : tt.Extends tt') : tt'.Normal ts := by
  refine ⟨h.sorted.imp fun hst => hst.extends hext, fun t ht => ?_, h.proper, h.several⟩
  obtain ⟨d, hd, hkind⟩ := h.atomic t ht
  exact ⟨d, hext.descriptor hd, hkind⟩

/-! ## What checks say -/

/-- A declaration that passes the check gives a family that is well formed. -/
theorem wellFormed_of_validate {d : Declaration} (h : tt.validate d = .ok ()) :
    d.family.isWellFormed = true := by
  unfold validate at h
  split at h
  · cases h
  · obtain ⟨_, hkind, -⟩ := bind_eq_ok.1 h
    simp only [Family.isWellFormed, Declaration.family]
    unfold validateKind at hkind
    cases hd : d.kind with
    | primitive size align =>
      rw [hd] at hkind
      obtain ⟨hbad, hkind⟩ := guard_eq_ok.1 hkind
      rw [not_or, Decidable.not_not] at hbad
      cases hm : d.isMutable with
      | false => exact Bool.and_eq_true_iff.2 ⟨decide_eq_true ⟨UInt64.pos_iff_ne_zero.2 hbad.1, hbad.2⟩, rfl⟩
      | true =>
        rw [hm] at hkind
        cases hkind
    | struct => rfl
    | abstract =>
      rw [hd] at hkind
      obtain ⟨-, hkind⟩ := guard_eq_ok.1 hkind
      cases hm : d.isMutable with
      | false => rfl
      | true =>
        rw [hm] at hkind
        cases hkind

/-- An array type that passes the check has an element type and a rank. -/
theorem array_of_checkArrayParams (h : checkArrayParams f ps = .ok ()) :
    ∃ elem n, ps = [.type elem, .int n] ∧ 0 ≤ n.toInt ∧ n.toInt ≤ maxRank := by
  unfold checkArrayParams at h
  split at h
  · rename_i elem n
    split at h
    · rename_i hn
      exact ⟨elem, n, rfl, hn⟩
    · cases h
  · cases h

/-! ## Steps -/

/-- What is checked before a family is applied to parameters. The parameters of a union are put in
normal form. -/
structure Accepts (tt : TypeTable) (f : Family) (ps : Params) : Prop where
  checked : f.kind ≠ .union → tt.checkParams f ps = .ok ()
  registered : ∀ t ∈ ps.types, ∃ d, tt.descriptor t = .ok d
  normal : f.kind = .union → ∃ ts, ps = Params.ofTypes ts ∧ tt.Normal ts

theorem array_of_accepts (h : tt.Accepts f ps) (hkind : f.kind = .array) :
    ∃ elem n, ps = [.type elem, .int n] ∧ 0 ≤ n.toInt ∧ n.toInt ≤ maxRank := by
  have hc := h.checked (by rw [hkind]; decide)
  refine array_of_checkArrayParams (f := f) ?_
  unfold checkParams at hc
  rw [hkind] at hc
  obtain ⟨-, hc⟩ := guard_eq_ok.1 hc
  obtain ⟨_, -, hc⟩ := bind_eq_ok.1 hc
  exact hc

/-- One addition to a table. -/
inductive Step (tt : TypeTable) : TypeTable → Prop
  /-- A family that was declared, under a name that was free. -/
  | family (d : Declaration) (valid : tt.validate d = .ok ()) (free : tt.family? d.name = none) :
      Step tt (tt.addFamily d.family)
  /-- The first application of a family to some parameters. -/
  | applied {f : Family} {ps : Params} {t : TypeRef} (declared : tt.family? f.name = some f)
      (next : tt.nextRef = .ok t) (new : tt.instance? f.name ps = none) (fits : tt.Accepts f ps) :
      Step tt (tt.addInstance t f ps)

theorem Step.extends (h : tt.Step tt') : tt.Extends tt' := by
  cases h with
  | family d _ free =>
    refine ⟨fun h => h, fun {name f} h => ?_, fun h => h⟩
    have hne : d.family.name ≠ name := by
      rintro rfl
      rw [show tt.family? d.family.name = none from free] at h
      cases h
    rw [family?_addFamily, if_neg hne]
    exact h
  | @applied f ps t _ next new _ =>
    refine ⟨fun h => (descriptor_addInstance next).2 (.inl h), fun h => h, fun {name qs s} h => ?_⟩
    have hne : ¬(f.name = name ∧ ps = qs) := by
      rintro ⟨rfl, rfl⟩
      rw [new] at h
      cases h
    rw [instance?_addInstance, if_neg hne]
    exact h

/-- Any number of additions. -/
abbrev Path : TypeTable → TypeTable → Prop := Relation.ReflTransGen Step

/-- What every addition keeps, any number of them keep. By induction on their number. -/
theorem Path.preserves {P : TypeTable → Prop} (h : Path tt tt') (hstep : ∀ {a b : TypeTable}, Step a b → P a → P b)
    (hp : P tt) : P tt' := by
  induction h with
  | refl => exact hp
  | tail _ step ih => exact hstep step ih

theorem Path.extends (h : Path tt tt') : tt.Extends tt' :=
  h.preserves (P := tt.Extends) (fun step he => he.trans step.extends) (.refl tt)

/-! ## Soundness -/

/-- What holds of every table that grows out of the builtin one. -/
structure Sound (tt : TypeTable) : Prop where
  builtin : TypeTable.builtin.Extends tt
  /-- A descriptor stands at its own number. -/
  ref_eq : ∀ {t d}, tt.descriptor t = .ok d → d.ref = t
  /-- The family of a descriptor is the one that its name stands for. -/
  family_eq : ∀ {t d}, tt.descriptor t = .ok d → tt.family? d.name = some d.family
  /-- The instance list agrees with the descriptors. -/
  instance_eq : ∀ {name ps t}, tt.instance? name ps = some t →
    ∃ d, tt.descriptor t = .ok d ∧ d.name = name ∧ d.params = ps
  /-- Every descriptor is in the instance list. -/
  found : ∀ {t d}, tt.descriptor t = .ok d → tt.instance? d.name d.params = some t
  family : ∀ {name f}, tt.family? name = some f → f.name = name ∧ f.isWellFormed = true
  /-- There is one family of unions. -/
  unions : ∀ {name f}, tt.family? name = some f → f.kind = .union → f = Builtin.unionFamily
  /-- Unions are in normal form. -/
  normal : ∀ {t d}, tt.descriptor t = .ok d → d.kind = .union →
    ∃ ts, d.params = Params.ofTypes ts ∧ tt.Normal ts
  /-- An array type has an element type and a rank. -/
  array : ∀ {t d}, tt.descriptor t = .ok d → d.kind = .array →
    ∃ elem n, d.params = [.type elem, .int n] ∧ 0 ≤ n.toInt ∧ n.toInt ≤ maxRank
  /-- Every descriptor has a number of 32 bits. -/
  bounded : tt.types.size < 0x100000000

/-- A family that was declared is well formed, and no union. -/
theorem Sound.addFamily {d : Declaration} (hs : tt.Sound) (valid : tt.validate d = .ok ())
    (hext : tt.Extends (tt.addFamily d.family)) : (tt.addFamily d.family).Sound where
  builtin := hs.builtin.trans hext
  ref_eq := hs.ref_eq
  family_eq h := hext.family (hs.family_eq h)
  instance_eq h := hs.instance_eq h
  found h := hs.found h
  family {name f} h := by
    rw [family?_addFamily] at h
    split at h
    · rename_i hname
      cases h
      exact ⟨hname, wellFormed_of_validate valid⟩
    · exact hs.family h
  unions {name f} h hkind := by
    rw [family?_addFamily] at h
    split at h
    · cases h
      exact absurd hkind d.kind.typeKind_ne_union
    · exact hs.unions h hkind
  normal h hkind := by
    obtain ⟨ts, hts, hnormal⟩ := hs.normal h hkind
    exact ⟨ts, hts, hnormal.extends hext⟩
  array := hs.array
  bounded := hs.bounded

/-- The new descriptor is what the family accepted, and the others are as they were. -/
theorem Sound.addInstance (hs : tt.Sound) (declared : tt.family? f.name = some f) (next : tt.nextRef = .ok t)
    (fits : tt.Accepts f ps) (hext : tt.Extends (tt.addInstance t f ps)) : (tt.addInstance t f ps).Sound where
  builtin := hs.builtin.trans hext
  ref_eq h := by
    rcases (descriptor_addInstance next).1 h with h | ⟨rfl, rfl⟩
    · exact hs.ref_eq h
    · rfl
  family_eq h := by
    rcases (descriptor_addInstance next).1 h with h | ⟨rfl, rfl⟩
    · exact hs.family_eq h
    · exact declared
  instance_eq {name qs s} h := by
    rw [instance?_addInstance] at h
    split at h
    · rename_i hname
      cases h
      exact ⟨_, (descriptor_addInstance next).2 (.inr ⟨rfl, rfl⟩), hname⟩
    · obtain ⟨d, hd, hname⟩ := hs.instance_eq h
      exact ⟨d, hext.descriptor hd, hname⟩
  found h := by
    rcases (descriptor_addInstance next).1 h with h | ⟨rfl, rfl⟩
    · exact hext.instances (hs.found h)
    · exact (instance?_addInstance _ _).trans (if_pos ⟨rfl, rfl⟩)
  family := hs.family
  unions := hs.unions
  normal {s d} h hkind := by
    have hnormal : ∃ ts, d.params = Params.ofTypes ts ∧ tt.Normal ts := by
      rcases (descriptor_addInstance next).1 h with h | ⟨rfl, rfl⟩
      · exact hs.normal h hkind
      · exact fits.normal hkind
    obtain ⟨ts, hts, hnormal⟩ := hnormal
    exact ⟨ts, hts, hnormal.extends hext⟩
  array h hkind := by
    rcases (descriptor_addInstance next).1 h with h | ⟨rfl, rfl⟩
    · exact hs.array h hkind
    · exact array_of_accepts fits hkind
  bounded := by
    show (tt.types.push _).size < _
    rw [Array.size_push, ← index_of_nextRef next]
    exact t.lt

theorem Step.sound (h : tt.Step tt') (hs : tt.Sound) : tt'.Sound := by
  have hext := h.extends
  cases h with
  | family d valid free => exact hs.addFamily valid hext
  | applied declared next new fits => exact hs.addInstance declared next fits hext

theorem Path.sound (h : Path tt tt') (hs : tt.Sound) : tt'.Sound := h.preserves Step.sound hs

/-! ## The builtin table -/

theorem sound_builtin : TypeTable.builtin.Sound := by
  have hdescriptor {t : TypeRef} {d : Descriptor} (h : builtin.descriptor t = .ok d) :
      ∃ i, ∃ hi : i < builtin.types.size, i + 1 = t.index ∧ builtin.types[i] = d := by
    obtain ⟨hi, hd⟩ := Array.getElem?_eq_some_iff.1 (descriptor_eq_ok.1 h)
    have hpos := t.pos
    exact ⟨t.index - 1, hi, by omega, hd⟩
  refine ⟨.refl _, fun h => ?_, fun h => ?_, fun {name ps t} h => ?_, fun {t d} h => ?_, fun {name f} h => ?_,
    fun {name f} h hkind => ?_, fun h hkind => ?_, fun h hkind => ?_, by decide⟩
  · obtain ⟨i, hi, hindex, rfl⟩ := hdescriptor h
    have hall : ∀ i (hi : i < builtin.types.size), builtin.types[i].ref.index = i + 1 := by decide
    exact TypeRef.ext ((hall i hi).trans hindex)
  · obtain ⟨i, hi, -, rfl⟩ := hdescriptor h
    have hall : ∀ i (hi : i < builtin.types.size),
        builtin.family? builtin.types[i].name = some builtin.types[i].family := by decide
    exact hall i hi
  · obtain ⟨before, after, hsplit, -⟩ := List.lookup_eq_some_iff.1 h
    have hmem : ((name, ps), t) ∈ builtin.instances := by
      rw [hsplit]
      exact List.mem_append_right _ List.mem_cons_self
    have hall : ∀ p ∈ builtin.instances, ∃ i, ∃ hi : i < builtin.types.size,
        i + 1 = p.2.index ∧ builtin.types[i].name = p.1.1 ∧ builtin.types[i].params = p.1.2 := by
      decide
    obtain ⟨i, hi, hindex, hname⟩ := hall _ hmem
    refine ⟨builtin.types[i], descriptor_eq_ok.2 ?_, hname⟩
    have : t.index - 1 = i := by
      have hindex : i + 1 = t.index := hindex
      omega
    rw [this, Array.getElem?_eq_getElem hi]
  · obtain ⟨i, hi, hindex, rfl⟩ := hdescriptor h
    have hall : ∀ i (hi : i < builtin.types.size),
        (builtin.instance? builtin.types[i].name builtin.types[i].params).map TypeRef.index = some (i + 1) := by
      decide
    obtain ⟨s, hs, hs'⟩ := Option.map_eq_some_iff.1 (hall i hi)
    rw [hs, TypeRef.ext (hs'.trans hindex)]
  · have hmem := List.mem_of_find?_eq_some h
    have hname := List.find?_some h
    have hall : ∀ f ∈ builtin.families, f.isWellFormed = true := by decide
    exact ⟨by simpa using hname, hall f hmem⟩
  · have hall : ∀ f ∈ builtin.families, f.kind = .union → f = Builtin.unionFamily := by decide
    exact hall f (List.mem_of_find?_eq_some h) hkind
  · obtain ⟨i, hi, -, rfl⟩ := hdescriptor h
    have hall : ∀ i (hi : i < builtin.types.size), builtin.types[i].kind ≠ .union := by decide
    exact absurd hkind (hall i hi)
  · obtain ⟨i, hi, -, rfl⟩ := hdescriptor h
    have hall : ∀ i (hi : i < builtin.types.size), builtin.types[i].kind ≠ .array := by decide
    exact absurd hkind (hall i hi)

end TypeTable

end TypedHeap
