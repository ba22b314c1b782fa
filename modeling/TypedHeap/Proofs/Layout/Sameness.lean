import TypedHeap.Proofs.Layout.History
import TypedHeap.Proofs.Layout.Placement
import TypedHeap.Proofs.Types.Sameness

/-!
# Layouts of the same type

Two layouts are alike if they agree in everything but the numbers of the types of their fields. A product has the
layout that the kinds, sizes and alignments of its fields ask for, so the same type has layouts that are alike in
both tables.

* `Slot.Alike`, `FieldLayout.Alike`, `Draft.Alike`, `Layout.Alike`: agreement up to a relation of types.
* `Agree`: answers that are related, or the same error.

Main results: `Draft.Alike.add`, `TypeTable.Same.reference_agree` and `TypeTable.Same.nestsWithin`, by which the
same type nests as deep in both tables.
-/

namespace TypedHeap

/-! ## Agreement up to types -/

/-- Fields without an offset that agree in everything but the numbers of their types. -/
structure Slot.Alike (R : TypeRef → TypeRef → Prop) (s r : Slot) : Prop where
  name : s.name = r.name
  type : R s.type r.type
  size : s.size = r.size
  align : s.align = r.align
  isInline : s.isInline = r.isInline

/-- Fields that agree in everything but the numbers of their types. -/
structure FieldLayout.Alike (R : TypeRef → TypeRef → Prop) (f g : FieldLayout) : Prop where
  name : f.name = g.name
  type : R f.type g.type
  offset : f.offset = g.offset
  size : f.size = g.size
  isInline : f.isInline = g.isInline

/-- Layouts that agree in everything but the numbers of the types of their fields. -/
structure Layout.Alike (R : TypeRef → TypeRef → Prop) (l m : Layout) : Prop where
  size : l.size = m.size
  alignment : l.alignment = m.alignment
  fields : List.Forall₂ (FieldLayout.Alike R) l.fields m.fields
  pointerOffsets : l.pointerOffsets = m.pointerOffsets
  isBits : l.isBits = m.isBits
  hasPadding : l.hasPadding = m.hasPadding

/-- Layouts in the making that agree in everything but the numbers of the types of their fields. -/
structure Draft.Alike (R : TypeRef → TypeRef → Prop) (d e : Draft) : Prop where
  stop : d.stop = e.stop
  alignment : d.alignment = e.alignment
  fields : List.Forall₂ (FieldLayout.Alike R) d.fields e.fields
  pointerOffsets : d.pointerOffsets = e.pointerOffsets
  hasPadding : d.hasPadding = e.hasPadding

/-- Two questions have answers that are related, or end with the same error. -/
inductive Agree {α β : Type} (R : α → β → Prop) : Except Error α → Except Error β → Prop
  | ok {a : α} {b : β} (related : R a b) : Agree R (.ok a) (.ok b)
  | error (e : Error) : Agree R (.error e) (.error e)

namespace Agree

variable {α β α' β' : Type} {R : α → β → Prop} {S : α' → β' → Prop} {x : Except Error α} {y : Except Error β}

theorem bind {f : α → Except Error α'} {g : β → Except Error β'} (h : Agree R x y)
    (hfg : ∀ a b, R a b → Agree S (f a) (g b)) : Agree S (x >>= f) (y >>= g) := by
  cases h with
  | ok related => exact hfg _ _ related
  | error e => exact .error e

/-- The same question has related answers if every answer is related to itself. -/
theorem refl {x : Except Error α} {R : α → α → Prop} (h : ∀ a, x = .ok a → R a a) : Agree R x x := by
  cases x with
  | error e => exact .error e
  | ok a => exact .ok (h a rfl)

end Agree

section Alike

variable {R : TypeRef → TypeRef → Prop} {s r : Slot} {d e : Draft} {l : Layout}

/-- A layout without fields mentions no types. -/
theorem Layout.alike_of_fields (h : l.fields = []) : l.Alike R l := by
  refine ⟨rfl, rfl, ?_, rfl, rfl, rfl⟩
  rw [h]
  exact .nil

theorem Draft.alike_empty : Draft.empty.Alike R Draft.empty := ⟨rfl, rfl, .nil, rfl, rfl⟩

/-- Fields that are alike get the same place. -/
theorem Draft.Alike.add (h : d.Alike R e) (hs : s.Alike R r) : Agree (Draft.Alike R) (d.add s) (e.add r) := by
  unfold Draft.add
  rw [← h.stop, ← hs.align, ← hs.size]
  refine (Agree.refl fun start _ => rfl).bind ?_
  rintro start _ rfl
  refine (Agree.refl fun stop _ => rfl).bind ?_
  rintro stop _ rfl
  refine .ok ⟨rfl, ?_, ?_, ?_, ?_⟩
  · exact congrArg (max · s.align) h.alignment
  · exact List.rel_append h.fields (.cons ⟨hs.name, hs.type, rfl, rfl, hs.isInline⟩ .nil)
  · rw [h.pointerOffsets, hs.isInline]
  · rw [h.hasPadding]

/-- Layouts in the making that are alike become layouts that are. -/
theorem Draft.Alike.finish (h : d.Alike R e) (isMutable : Bool) :
    Agree (Layout.Alike R) (d.finish isMutable) (e.finish isMutable) := by
  unfold Draft.finish
  rw [← h.stop, ← h.alignment]
  refine (Agree.refl fun size _ => rfl).bind ?_
  rintro size _ rfl
  refine .ok ⟨rfl, rfl, h.fields, h.pointerOffsets, ?_, ?_⟩
  · rw [h.pointerOffsets]
  · rw [h.hasPadding]

end Alike

/-! ## The same type -/

open Layouts

section Fields

variable {R : TypeRef → TypeRef → Prop} {d e : Descriptor} {ps qs : Params} {fs gs : List (Symbol × TypeRef)}
  {k : Nat}

theorem Descriptor.Alike.mayBeInline_eq (h : d.Alike R e) : d.mayBeInline = e.mayBeInline := by
  simp only [Descriptor.mayBeInline, h.kind, h.isMutable]

theorem Descriptor.Alike.structFields (h : d.Alike R e) (hfs : structFields d = .ok fs)
    (hgs : structFields e = .ok gs) : List.Forall₂ (fun f g => f.1 = g.1 ∧ R f.2 g.2) fs gs := by
  have hspecs := Descriptor.forall₂_structFields hfs
  have hspecs' := Descriptor.forall₂_structFields hgs
  have hfields := h.fields
  generalize d.family.fields = specs at hspecs hfields
  generalize e.family.fields = specs' at hspecs' hfields
  clear hfs hgs
  induction hfields generalizing fs gs with
  | nil =>
    cases hspecs
    cases hspecs'
    exact .nil
  | cons hfield _ ih =>
    cases hspecs with
    | cons hs hspecs =>
      cases hspecs' with
      | cons hs' hspecs' =>
        refine .cons ⟨?_, hfield.2 _ _ hs.2 hs'.2⟩ (ih hspecs hspecs')
        rw [hs.1, hs'.1, hfield.1]

theorem tupleFieldsFrom_alike (h : List.Forall₂ (TypeParam.Alike R) ps qs) (hfs : tupleFieldsFrom k ps = .ok fs)
    (hgs : tupleFieldsFrom k qs = .ok gs) : List.Forall₂ (fun f g => f.1 = g.1 ∧ R f.2 g.2) fs gs := by
  induction h generalizing k fs gs with
  | nil =>
    cases hfs
    cases hgs
    exact .nil
  | cons hp _ ih =>
    cases hp with
    | type related =>
      obtain ⟨rest, hrest, hfs⟩ := bind_eq_ok.1 hfs
      cases hfs
      obtain ⟨rest', hrest', hgs⟩ := bind_eq_ok.1 hgs
      cases hgs
      exact .cons ⟨rfl, related⟩ (ih hrest hrest')
    | _ => cases hfs

/-- The fields of instances that are alike have the same names, and types that are related. -/
theorem Layouts.FieldsOf.alike (hfs : FieldsOf d fs) (hgs : FieldsOf e gs) (h : d.Alike R e) :
    List.Forall₂ (fun f g => f.1 = g.1 ∧ R f.2 g.2) fs gs := by
  rcases hfs with ⟨hkind, hfs⟩ | ⟨hkind, hfs⟩ <;> rcases hgs with ⟨hkind', hgs⟩ | ⟨hkind', hgs⟩
  · exact h.structFields hfs hgs
  · cases hkind.symm.trans (h.kind.trans hkind')
  · cases hkind.symm.trans (h.kind.trans hkind')
  · exact tupleFieldsFrom_alike (h.params (by rw [hkind]; nofun)) hfs hgs

/-- The layout of an array type depends on the number of dimensions, and not on the type of elements. -/
theorem Layouts.array_eq {elem : TypeRef} {n : Int64} (h : List.Forall₂ (TypeParam.Alike R) d.params e.params)
    (hd : d.params = [.type elem, .int n]) : Layouts.array d = Layouts.array e := by
  rw [hd] at h
  obtain ⟨p, qs, -, hqs, hp⟩ := List.forall₂_cons_left_iff.1 h
  obtain ⟨q, rest, hq, -, rfl⟩ := List.forall₂_cons_left_iff.1 hqs
  cases hq
  unfold Layouts.array
  rw [hd, hp]
  rfl

end Fields

namespace TypeTable

variable {tt tt' : TypeTable} {t u : TypeRef} {l m : Layout} {R : TypeRef → TypeRef → Prop}
  {fs gs : List (Symbol × TypeRef)} {x : Symbol} {s r : Slot}

/-- The same type is stored inline in both tables, with the same size and alignment, or in none of them. -/
theorem Same.plainSlot_agree (h : tt.Same tt' t u)
    (hlayout : Agree (Layout.Alike (tt.Same tt')) (reference tt t) (reference tt' u)) :
    Agree (Slot.Alike (tt.Same tt')) (plainSlot tt (reference tt) x t) (plainSlot tt' (reference tt') x u) := by
  obtain ⟨d, e, hd, he, halike⟩ := same_iff.1 h
  have href : Agree (Slot.Alike (tt.Same tt')) (.ok (Slot.reference x t)) (.ok (Slot.reference x u)) :=
    .ok ⟨rfl, h, rfl, rfl, rfl⟩
  rw [plainSlot, plainSlot, hd, he]
  show Agree _ (if d.mayBeInline = true then _ else _) (if e.mayBeInline = true then _ else _)
  rw [← halike.mayBeInline_eq]
  split
  · refine hlayout.bind fun l m hlm => ?_
    rw [← hlm.isBits]
    split
    · exact .ok ⟨rfl, h, hlm.size, hlm.alignment, rfl⟩
    · exact href
  · exact href

theorem plainProduct_agree (hfields : List.Forall₂ (fun f g => f.1 = g.1 ∧ R f.2 g.2) fs gs)
    (hbelow : ∀ a b, R a b → tt.Same tt' a b)
    (hlayout : ∀ a b, R a b → Agree (Layout.Alike (tt.Same tt')) (reference tt a) (reference tt' b))
    (isMutable : Bool) : Agree (Layout.Alike (tt.Same tt')) (plainProduct tt (reference tt) isMutable fs)
      (plainProduct tt' (reference tt') isMutable gs) := by
  have hfold {d e : Draft} (hde : d.Alike (tt.Same tt') e) : Agree (Draft.Alike (tt.Same tt'))
      (fs.foldlM (plainExtend tt (reference tt)) d) (gs.foldlM (plainExtend tt' (reference tt')) e) := by
    induction hfields generalizing d e with
    | nil => exact .ok hde
    | @cons f g _ _ hfg _ ih =>
      rw [List.foldlM_cons, List.foldlM_cons]
      refine Agree.bind ?_ fun _ _ => ih
      rw [plainExtend, plainExtend, ← hfg.1]
      exact ((hbelow _ _ hfg.2).plainSlot_agree (hlayout _ _ hfg.2)).bind fun _ _ => hde.add
  exact (hfold Draft.alike_empty).bind fun _ _ hde => hde.finish isMutable

/-- Types without objects have no layout, and the error shows them. -/
theorem reference_abstract {d : Descriptor} {text : String} (hs : tt.Sound) (ho : tt.Ordered)
    (hd : tt.descriptor t = .ok d) (hkind : d.kind.isInstantiable = false) (htext : tt.render t = .ok text) :
    reference tt t = .error (.invalidArgument (text ++ " is abstract and has no layout")) := by
  rw [reference_eq ho, hd]
  show plain tt (reference tt) d = _
  unfold plain
  rw [hs.ref_eq hd, htext]
  cases hk : d.kind <;> rw [hk] at hkind <;> first | rfl | cases hkind

/-- The same type has layouts that are alike in both tables, or the same error in both. -/
theorem Same.reference_agree (hs : tt.Sound) (hs' : tt'.Sound) (ho : tt.Ordered) (ho' : tt'.Ordered)
    (h : tt.Same tt' t u) : Agree (Layout.Alike (tt.Same tt')) (reference tt t) (reference tt' u) := by
  have hsame := h
  induction h with
  | @intro t u d e R left right alike below ih =>
    have ih (a b : TypeRef) (hab : R a b) := ih a b hab (below a b hab)
    cases hkind : d.kind.isInstantiable with
    | false =>
      obtain ⟨text, htext, htext'⟩ := hsame.exists_render hs hs' ho ho'
      rw [reference_abstract hs ho left hkind htext, reference_abstract hs' ho' right (alike.kind ▸ hkind) htext']
      exact .error _
    | true =>
      rw [reference_eq ho, left, reference_eq ho', right]
      show Agree _ (plain tt (reference tt) d) (plain tt' (reference tt') e)
      by_cases hfielded : d.kind = .struct ∨ d.kind = .tuple
      · obtain ⟨fs, hfs⟩ := exists_fieldsOf ho left hfielded
        obtain ⟨gs, hgs⟩ := exists_fieldsOf ho' right (alike.kind ▸ hfielded)
        rw [hfs.plain_eq, hgs.plain_eq, ← alike.isMutable]
        exact plainProduct_agree (hfs.alike hgs alike) below ih d.isMutable
      unfold plain
      rw [← alike.kind]
      cases hk : d.kind <;> rw [hk] at hkind hfielded
      case abstract | union => cases hkind
      case struct | tuple => simp at hfielded
      case array =>
        obtain ⟨elem, n, hparams, -⟩ := hs.array left hk
        rw [← Layouts.array_eq (alike.params (by rw [hk]; nofun)) hparams]
        refine Agree.refl fun l hl => Layout.alike_of_fields ?_
        obtain ⟨size, pointers, -, rfl⟩ := exists_handle_of_array hl
        rfl
      all_goals exact .ok (Layout.alike_of_fields rfl)

/-! ## Types inside the same type -/

/-- What stands inside a type in one table is the same as what stands inside it in the other. -/
theorem Same.holds (ho : tt.Ordered) (h : tt.Same tt' t u) {v : TypeRef} (hv : Holds tt' u v) :
    ∃ a, Holds tt t a ∧ tt.Same tt' a v := by
  obtain ⟨d, e, hd, he, halike⟩ := same_iff.1 h
  obtain ⟨e', gs, c, he', hgs, hmem, hc, hinline⟩ := hv
  cases he.symm.trans he'
  obtain ⟨fs, hfs⟩ : ∃ fs, FieldsOf d fs := by
    refine exists_fieldsOf ho hd ?_
    rw [halike.kind]
    exact hgs.imp And.left And.left
  obtain ⟨q, hq, rfl⟩ := List.mem_map.1 hmem
  obtain ⟨i, hi, rfl⟩ := List.mem_iff_getElem.1 hq
  have hfields := FieldsOf.alike hfs hgs halike
  have hi' : i < fs.length := hfields.length_eq ▸ hi
  have hsame : tt.Same tt' fs[i].2 gs[i].2 := (hfields.get hi' hi).2
  obtain ⟨b, c', hb, hc', hbc⟩ := same_iff.1 hsame
  cases hc.symm.trans hc'
  rw [← hbc.mayBeInline_eq] at hinline
  exact ⟨fs[i].2, ⟨d, fs, b, hd, hfs, List.mem_map_of_mem (List.getElem_mem hi'), hb, hinline⟩, hsame⟩

/-- The same type nests as deep in both tables. -/
theorem Same.nestsWithin (ho : tt.Ordered) (h : tt.Same tt' t u) {n : Nat} (hn : NestsWithin tt n t) :
    NestsWithin tt' n u := by
  induction n generalizing t u with
  | zero => exact hn
  | succ n ih =>
    intro v hv
    obtain ⟨a, ha, hav⟩ := h.holds ho hv
    exact ih hav (hn a ha)

end TypeTable

end TypedHeap
