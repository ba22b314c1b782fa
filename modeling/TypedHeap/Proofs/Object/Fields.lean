import TypedHeap.Proofs.Heap.Payloads
import TypedHeap.Proofs.Object.Contents
import TypedHeap.Proofs.Object.Record
import TypedHeap.Proofs.Types.Hierarchy

/-!
# What fields take, and give back

A field takes an object of a type below its own, and reads as that object or, if it lies in place, as the bits of
the object. The layout keeps fields apart, so the other fields read as before, whatever they lie next to.

* `Record.stored`: what a field reads as once it has taken an object.
* `Record.Accepts`: objects that a field takes. What a field in place takes is exactly of its type.
* `Filled.datumAt_eq`: fields that lie elsewhere.

Main results: `new_yields`, `new_full`, `new_ends`, `write_succeeds_iff`, `write_reads`, `write_refuses`.
-/

namespace TypedHeap

open TypedHeap.Action (Ends Yields Meets runOn_bind_ok runOn_bind_error runOn_look)
open Heap Layouts

variable {h h' : Heap} {v x : Value} {t u : TypeRef} {d : Descriptor} {l : Layout} {e : FieldLayout}
  {es : List FieldLayout} {args : List Value} {i j : Nat} {S : Value → Nat → Prop}

namespace Heap

/-- Below a type with a layout there is that type and no other. -/
theorem Sound.isa_decides_layout (hs : h.Sound) (hbelow : h.types.BelowAbstract)
    (hl : h.registry.layouts.find? u = some l) (ht : h.typeOf x = .ok t) :
    TypeTable.Decides (h.types.isa t u) (t = u) := by
  obtain ⟨d, hd, hkind⟩ := hs.kind_of_object ht
  obtain ⟨c, hc, hdesc⟩ := hs.registry.layouts.describes hl
  have hatom (y : TypeRef) : h.types.Atom [u] y ↔ y = u := TypeTable.atom_single hc hdesc.concrete.2
  refine (TypeTable.isa_decides_atom hs.registry.types hbelow hd hkind hc fun y hy => ?_).congr (hatom t)
  exact ⟨c, by rwa [(hatom y).1 hy], hdesc.concrete.1⟩

theorem Sound.typeOf_of_isa (hs : h.Sound) (hbelow : h.types.BelowAbstract)
    (hl : h.registry.layouts.find? u = some l) (hisa : h.isa x u = .ok true) : h.typeOf x = .ok u := by
  obtain ⟨t, ht, hfits⟩ := isa_eq_ok.1 hisa
  rw [ht, (hs.isa_decides_layout hbelow hl ht).eq_ok_iff.1 hfits]

end Heap

namespace Record

/-! ## What a field takes -/

/-- What a field reads as once an object is stored in it. -/
def stored (h : Heap) (e : FieldLayout) (x : Value) : Except Error Datum := do
  if e.isInline then return .bits e.type (← h.payload x)
  return .ref x

/-- Objects that a field takes. -/
structure Accepts (h : Heap) (e : FieldLayout) (x : Value) : Prop where
  isa : h.isa x e.type = .ok true
  exact : e.isInline = true → h.typeOf x = .ok e.type

theorem Accepts.of_isa (hs : h.Sound) (hbelow : h.types.BelowAbstract) (hl : h.registry.layouts.find? t = some l)
    (he : e ∈ l.fields) (hisa : h.isa x e.type = .ok true) : Accepts h e x where
  isa := hisa
  exact hin := by
    obtain ⟨m, hm, -⟩ := hs.registry.layouts.inline hl he hin
    exact hs.typeOf_of_isa hbelow hm hisa

theorem Accepts.live (ha : Accepts h e x) : h.Live x := by
  obtain ⟨t, ht, -⟩ := isa_eq_ok.1 ha.isa
  exact live_of_typeOf ht

theorem Accepts.extends (ha : Accepts h e x) (he : h.Extends h') : Accepts h' e x :=
  ⟨he.isa ha.isa, fun hin => he.typeOf (ha.exact hin)⟩

/-- What a field takes, it has something to read as. -/
theorem Accepts.exists_stored (ha : Accepts h e x) (hs : h.Sound) : ∃ d, stored h e x = .ok d := by
  obtain ⟨n, hn⟩ := ha.live
  unfold stored
  split
  · exact ⟨_, bind_eq_ok.2 ⟨_, hs.payload_eq hn, rfl⟩⟩
  · exact ⟨_, rfl⟩

/-- It is read as the same as long as nobody writes to the object. -/
theorem Accepts.stored_kept (ha : Accepts h e x) (hs : h.Sound) (hs' : h'.Sound) (hk : Keeps S h h')
    (hS : ∀ k, ¬S x k) : stored h' e x = stored h e x := by
  rw [stored, stored, hs.payload_kept hs' hk ha.live hS]

/-! ## Stores -/

/-- A store that is accepted puts into the field what it is to read as. -/
theorem store_accepted (hs : h.Sound) (ht : h.typeOf v = .ok t) (hl : h.registry.layouts.find? t = some l)
    (he : e ∈ l.fields) (ha : Accepts h e x) :
    Yields (store v e x) h fun _ h' => Filled v [e] h h' ∧ datumAt h' v e = stored h e x := by
  have hfield {h' : Heap} (hfilled : Filled v [e] h h') :
      h'.typeOf v = .ok t ∧ h'.registry.layouts.find? t = some l :=
    ⟨hfilled.rewrites.typeOf_iff.2 ht, by rw [hfilled.rewrites.registry]; exact hl⟩
  unfold stored
  cases hin : e.isInline with
  | true =>
    obtain ⟨m, hm, hbits, hsize⟩ := hs.registry.layouts.inline hl he hin
    refine (store_bits_yields hs ht hl he hin (ha.exact hin)).mono fun _ h' hdone => ⟨hdone.1, ?_⟩
    obtain ⟨ht', hl'⟩ := hfield hdone.1
    rw [datumAt_inline hdone.1.sound ht' hl' he hin, hdone.2, if_pos rfl,
      hs.payload_eq (hs.size_bits (ha.exact hin) hm hbits), hsize]
    rfl
  | false =>
    have hsuits : Content.Suits e (.ref (some x)) :=
      ⟨hs.registry.layouts.size_reference hl he hin, hin⟩
    refine (store_ref_yields hs ht hl he hsuits ha.isa).mono fun _ h' hdone => ⟨hdone.1, ?_⟩
    obtain ⟨ht', hl'⟩ := hfield hdone.1
    have hslot : h'.slot v e.offset = some x := hdone.2
    rw [datumAt_outside hdone.1.sound ht' hl' he hin, hslot]
    rfl

/-- Other objects are not taken, and nothing is written. -/
theorem store_rejected (hnot : h.isa x e.type ≠ .ok true) : ∃ err, (store v e x).runOn h = (.error err, h) := by
  unfold store
  cases ht : h.typeOf x with
  | error err => exact ⟨err, runOn_bind_error (by rw [runOn_look, ht])⟩
  | ok t =>
    rw [runOn_bind_ok (by rw [runOn_look, ht])]
    cases hfits : h.types.isa t e.type with
    | error err => exact ⟨err, runOn_bind_error (by rw [runOn_look, hfits])⟩
    | ok b =>
      rw [runOn_bind_ok (by rw [runOn_look, hfits])]
      cases b with
      | false => exact ⟨_, rfl⟩
      | true => exact absurd (isa_eq_ok.2 ⟨t, ht, hfits⟩) hnot

/-- Messages call an object by its type, which does not change. -/
theorem ownerText_eq (hr : Rewrites S h h') (ht : h.typeOf v = .ok t) : ownerText h' v = ownerText h v := by
  rw [ownerText, ownerText, hr.typeOf_iff.2 ht, ht, hr.types_eq]

/-- A field that lies elsewhere reads as before. -/
theorem Filled.datumAt_eq (hf : Filled v es h h') (hs : h.Sound) (ht : h.typeOf v = .ok t)
    (hl : h.registry.layouts.find? t = some l) (he : e ∈ l.fields) (hseparate : ∀ g ∈ es, Layout.Separate e g) :
    datumAt h' v e = datumAt h v e := by
  have hr := hf.rewrites
  have hn := hs.size_record ht hl he
  have hend := hs.registry.layouts.end_le hl he
  have ht' := hr.typeOf_iff.2 ht
  have hl' : h'.registry.layouts.find? t = some l := by rw [hr.registry]; exact hl
  have hout (k : Nat) (hlo : e.offset ≤ k) (hhi : k < e.offset + e.size) :
      ¬(v = v ∧ ∃ g ∈ es, g.offset ≤ k ∧ k < g.offset + g.size) := by
    rintro ⟨-, g, hg, hk⟩
    have hsep := hseparate g hg
    rw [Layout.Separate] at hsep
    omega
  cases hin : e.isInline with
  | true =>
    have hwindow : h'.memory.window (v.offset + e.offset) e.size = h.memory.window (v.offset + e.offset) e.size :=
      window_eq_of_byte_eq fun k hk => hr.bytes hn (by omega) (hout _ (by omega) (by omega))
    rw [datumAt_inline hf.sound ht' hl' he hin, datumAt_inline hs ht hl he hin, hwindow]
  | false =>
    have hsize := hs.registry.layouts.size_reference hl he hin
    rw [refSize] at hsize
    have hslot : h'.slot v e.offset = h.slot v e.offset :=
      hr.keeps.slot_eq hn (by omega) fun k hlo hhi => hout k hlo (by omega)
    rw [datumAt_outside hf.sound ht' hl' he hin, datumAt_outside hs ht hl he hin, hslot, ownerText_eq hr ht]

/-- Different fields of a layout are apart. -/
theorem separate_of_ne {f g : FieldLayout} (hs : h.Sound) (hl : h.registry.layouts.find? t = some l)
    (hf : l.fields[i]? = some f) (hg : l.fields[j]? = some g) (hne : i ≠ j) : Layout.Separate f g := by
  obtain ⟨hi, rfl⟩ := List.getElem?_eq_some_iff.1 hf
  obtain ⟨hj, rfl⟩ := List.getElem?_eq_some_iff.1 hg
  have hpairs := List.pairwise_iff_getElem.1 (hs.registry.layouts.pairwise_separate hl)
  rcases Nat.lt_or_gt_of_ne hne with hlt | hlt
  · exact hpairs i j hi hj hlt
  · exact (hpairs j i hj hi hlt).symm

/-- Fields that are apart take one object after the other, and each reads as what it was given. -/
theorem storeAll_accepted {h₀ : Heap} (hs : h.Sound) (ht : h.typeOf v = .ok t)
    (hl : h.registry.layouts.find? t = some l) (hes : ∀ e ∈ es, e ∈ l.fields) (hseparate : es.Pairwise Layout.Separate)
    (hargs : List.Forall₂ (fun e x => x ≠ v ∧ Accepts h e x ∧ stored h e x = stored h₀ e x) es args) :
    Yields (storeAll v (es.zip args)) h fun _ h' =>
      Filled v es h h' ∧ List.Forall₂ (fun e x => datumAt h' v e = stored h₀ e x) es args := by
  induction es generalizing h args with
  | nil =>
    cases hargs
    exact Yields.pure ⟨⟨hs, .refl _ _, rfl⟩, .nil⟩
  | cons e es ih =>
    obtain ⟨x, args, ⟨-, ha, hsame⟩, hrest, rfl⟩ := List.forall₂_cons_left_iff.1 hargs
    rw [List.forall_mem_cons] at hes
    obtain ⟨hsep, hseparate⟩ := List.pairwise_cons.1 hseparate
    refine Yields.bind (store_accepted hs ht hl hes.1 ha) fun _ h₁ hdone => ?_
    obtain ⟨hfilled, hdatum⟩ := hdone
    have hr := hfilled.rewrites
    have ht₁ := hr.typeOf_iff.2 ht
    have hl₁ : h₁.registry.layouts.find? t = some l := by rw [hr.registry]; exact hl
    have hrest₁ : List.Forall₂ (fun g y => y ≠ v ∧ Accepts h₁ g y ∧ stored h₁ g y = stored h₀ g y) es args :=
      hrest.imp fun g y hy => ⟨hy.1, hy.2.1.extends hr.extends,
        (hy.2.1.stored_kept hs hfilled.sound hr.keeps fun _ hin => hy.1 hin.1).trans hy.2.2⟩
    refine (ih hfilled.sound ht₁ hl₁ hes.2 hseparate hrest₁).mono fun _ h₂ hdone => ?_
    obtain ⟨hfilled', hall⟩ := hdone
    refine ⟨hfilled.cons hfilled', .cons ?_ hall⟩
    -- The fields that were stored afterwards lie elsewhere.
    rw [hfilled'.datumAt_eq hfilled.sound ht₁ hl₁ hes.1 hsep, hdatum, hsame]

/-! ## New objects -/

section New

variable (hs : h.Sound) (hbelow : h.types.BelowAbstract) (hd : h.types.descriptor t = .ok d)
  (hkind : d.kind = .struct ∨ d.kind = .tuple) (hl : ((layout t).runOn h).1 = .ok l)
  (hargs : List.Forall₂ (fun e x => h.isa x e.type = .ok true) l.fields args)

include hs hd hkind hl hargs

/-- Before fields are filled, an object is allocated for them. -/
theorem runOn_new : ∃ h₁, h.Learns h₁ ∧ h₁.registry.layouts.find? t = some l ∧ h₁.Takes t 0 l.size ∧
    (new t args).runOn h = (do
      let v ← allocate t 0
      storeAll v (l.fields.zip args)
      return v : HeapM Value).runOn h₁ := by
  have hmeets := layout_meets (h := h) t
  have hlearns := hmeets.kept
  have hfind := hmeets.answer l hl
  have hrun : (layout t).runOn h = (.ok l, ((layout t).runOn h).2) := Prod.ext hl rfl
  have hfixed : d.kind.isVariableSize = false ∧ d.kind ≠ .abstract ∧ d.kind ≠ .union := by
    rcases hkind with hkind | hkind <;> rw [hkind] <;> decide
  refine ⟨_, hlearns, hfind, ?_, ?_⟩
  · refine .fixed (hlearns.extends.descriptor hd) hfixed.1 hfixed.2 rfl ?_
    rw [runOn_sizeOf (hlearns.sound hs.registry) ⟨l, hfind, rfl⟩]
  · unfold new
    rw [runOn_bind_ok (by rw [runOn_look, expectFields_eq_ok hd hkind]), runOn_bind_ok hrun,
      if_neg (not_not_intro hargs.length_eq.symm)]

include hbelow in
/-- An object is made from a value for each field, if there is room for it, and each field reads as its value. -/
theorem new_yields (hroom : h.nextStart + l.size ≤ h.limit) : Yields (new t args) h fun v h' =>
    ¬h.Live v ∧ h'.typeOf v = .ok t ∧ ∀ i e x, l.fields[i]? = some e → args[i]? = some x →
      ∃ c, stored h e x = .ok c ∧ (read v i).runOn h' = (.ok c, h') := by
  obtain ⟨h₁, hlearns, hl₁, htakes, hrun⟩ := runOn_new hs hd hkind hl hargs
  have hs₁ := hs.learns hlearns
  obtain ⟨hstart, hlimit⟩ := hlearns.nextStart_eq
  obtain ⟨v, h₂, hmade, hs₂, hnew⟩ := (htakes.allocates hs₁).1 (by rwa [hstart, hlimit])
  have hfresh : ¬h.Live v := fun hlive => hnew.fresh (hlearns.extends.live hlive)
  have hl₂ := hnew.kept.registry.layouts hl₁
  have hgiven : List.Forall₂ (fun e x => x ≠ v ∧ Accepts h₂ e x ∧ stored h₂ e x = stored h e x) l.fields args := by
    refine ((List.forall₂_and_left _ _).2 ⟨fun _ he => he, hargs⟩).imp fun e x hex => ?_
    obtain ⟨he, hisa⟩ := hex
    have ha₁ := Accepts.of_isa hs₁ (hlearns.belowAbstract hbelow) hl₁ he (hlearns.extends.isa hisa)
    have hsame : stored h₁ e x = stored h e x := by
      obtain ⟨r, -, rfl⟩ := hlearns
      rfl
    refine ⟨?_, ha₁.extends hnew.kept.toExtends, (ha₁.stored_kept hs₁ hs₂ hnew.kept fun _ => id).trans hsame⟩
    rintro rfl
    exact hnew.fresh ha₁.live
  refine .of_runOn_eq hrun (Yields.bind_ok hmade ?_)
  refine Yields.bind (storeAll_accepted hs₂ hnew.type hl₂ (fun _ => id)
    (hs₂.registry.layouts.pairwise_separate hl₂) hgiven) fun _ h₃ hdone => Yields.pure ?_
  obtain ⟨hfilled, hall⟩ := hdone
  have hr := hfilled.rewrites
  have ht₃ := hr.typeOf_iff.2 hnew.type
  have hl₃ : h₃.registry.layouts.find? t = some l := by rw [hr.registry]; exact hl₂
  refine ⟨hfresh, ht₃, fun i e x he hx => ?_⟩
  obtain ⟨hi, rfl⟩ := List.getElem?_eq_some_iff.1 he
  obtain ⟨hi', rfl⟩ := List.getElem?_eq_some_iff.1 hx
  obtain ⟨-, ha, hsame⟩ := (List.forall₂_iff_get.1 hgiven).2 i hi hi'
  obtain ⟨c, hc⟩ := ha.exists_stored hs₂
  have hdatum : datumAt h₃ v l.fields[i] = stored h l.fields[i] args[i] := (List.forall₂_iff_get.1 hall).2 i hi hi'
  have hc : stored h l.fields[i] args[i] = .ok c := hsame.symm.trans hc
  refine ⟨c, hc, ?_⟩
  rw [runOn_read hfilled.sound ht₃ hl₃, Layout.field_eq_ok.2 he, ← hc, ← hdatum]
  rfl

/-- Without room for it nothing is made. -/
theorem new_full (hfull : h.limit < h.nextStart + l.size) : ∃ h', h.Learns h' ∧
    (new t args).runOn h = (.error (.outOfMemory (min (l.size + headerSize) maxWord) h.limit), h') := by
  obtain ⟨h₁, hlearns, hl₁, htakes, hrun⟩ := runOn_new hs hd hkind hl hargs
  obtain ⟨hstart, hlimit⟩ := hlearns.nextStart_eq
  obtain ⟨h₂, hlearns₂, herror⟩ := (htakes.allocates (hs.learns hlearns)).2 (by rwa [hstart, hlimit])
  refine ⟨h₂, hlearns.trans hlearns₂, hrun.trans ?_⟩
  rw [← hlimit]
  exact runOn_bind_error herror

end New

/-- A struct of scalars and references that was made from values has what they stand for. -/
theorem new_ends {fields : List (Symbol × TypeRef)} {items : List (Value × Content)} (ho : h.Orderly)
    (hd : h.types.descriptor t = .ok d) (hkind : d.kind = .struct) (hfields : structFields d = .ok fields)
    (hsimple : SimpleFields h.types fields)
    (hitems : List.Forall₂ (fun p i => h.Offers p.2 i.1 i.2) fields items) :
    Ends (new t (items.map Prod.fst)) h (fun v h' => ¬h.Live v ∧ h'.RecordOf v t (items.map Prod.snd))
      fun _ => True := by
  by_cases hroom : h.nextStart + (simpleLayout d.isMutable fields).size ≤ h.limit
  · have ha : h.Affords (.object (simpleLayout d.isMutable fields).size) := ⟨hroom, trivial⟩
    obtain ⟨v, h', hrun, -, hmade⟩ := new_makes ho hd hkind hfields hsimple ha hitems
    exact .of_ok hrun hmade
  · obtain ⟨l, h₁, hlayout, -, rfl, -⟩ :=
      layout_yields ho (laidOut_struct ho.sound.registry.types ho.types hd hkind hfields hsimple)
    have hplaced := placed_simpleLayout d.isMutable fields
    have hisa : List.Forall₂ (fun e x => h.isa x e.type = .ok true) (simpleLayout d.isMutable fields).fields
        (items.map Prod.fst) := by
      refine List.forall₂_map_right_iff.2 (List.forall₂_iff_get.2
        ⟨hplaced.length_eq.symm.trans hitems.length_eq, fun i hi hi' => ?_⟩)
      have hin : i < fields.length := hplaced.length_eq ▸ hi
      rw [((List.forall₂_iff_get.1 hplaced).2 i hin hi).type_eq, simpleSlot_type]
      exact ((List.forall₂_iff_get.1 hitems).2 i hin hi').isa
    obtain ⟨h', -, hrun⟩ :=
      new_full ho.sound hd (.inl hkind) (congrArg Prod.fst hlayout) hisa (Nat.not_le.1 hroom)
    exact .of_error hrun trivial

/-! ## Changes -/

theorem checkMutable_eq_ok (hmutable : h.registry.isMutable t = .ok true) : checkMutable h t e = .ok ⟨⟩ := by
  rw [checkMutable, hmutable]
  rfl

theorem checkMutable_error (hmutable : h.registry.isMutable t = .ok false) : ∃ err, checkMutable h t e = .error err := by
  rw [checkMutable, hmutable]
  show ∃ err, (h.types.render t >>= _ : Except Error Unit) = .error err
  cases h.types.render t with
  | error err => exact ⟨err, rfl⟩
  | ok text => exact ⟨_, rfl⟩

/-- The fields of a mutable object are stored in, but for the parents of modules. -/
theorem runOn_write (hs : h.Sound) (ht : h.typeOf v = .ok t) (hmutable : h.registry.isMutable t = .ok true)
    (hfree : t ≠ Builtin.moduleType ∨ i ≠ ModuleObject.parentField) :
    (write v i x).runOn h = (do store v (← fieldLayout v i) x : HeapM Unit).runOn h := by
  have hparent : (if t = Builtin.moduleType then ModuleObject.checkParent v i x else pure ⟨⟩ : HeapM Unit).runOn h =
      (.ok ⟨⟩, h) := by
    by_cases hmodule : t = Builtin.moduleType
    · rw [if_pos hmodule, ModuleObject.checkParent, if_neg fun hi => hfree.elim (absurd hmodule) (absurd hi.1)]
      rfl
    · rw [if_neg hmodule]
      rfl
  unfold write
  rw [runOn_bind_ok (by rw [runOn_look, ht])]
  obtain ⟨t', l, e, -, -, -, hfield⟩ | ⟨err, h', hfield, -⟩ := fieldLayout_cases hs v i
  · rw [runOn_bind_ok hfield, runOn_bind_ok hfield, runOn_bind_ok (by rw [runOn_look, checkMutable_eq_ok hmutable])]
    split
    · rename_i hmodule
      rw [if_pos hmodule] at hparent
      exact runOn_bind_ok hparent
    · rfl
  · rw [runOn_bind_error hfield, runOn_bind_error hfield]

/-- An object is given to a field of a mutable object exactly if it is of a type below the field's. -/
theorem write_succeeds_iff (hs : h.Sound) (hbelow : h.types.BelowAbstract) (ht : h.typeOf v = .ok t)
    (hmutable : h.registry.isMutable t = .ok true) (hfree : t ≠ Builtin.moduleType ∨ i ≠ ModuleObject.parentField) :
    ((write v i x).runOn h).1 = .ok ⟨⟩ ↔
      ∃ e, ((fieldLayout v i).runOn h).1 = .ok e ∧ h.isa x e.type = .ok true := by
  rw [runOn_write hs ht hmutable hfree]
  obtain ⟨t', l, e, ht', hl, he, hfield⟩ | ⟨err, h', hfield, -⟩ := fieldLayout_cases hs v i
  · rw [runOn_bind_ok hfield, hfield]
    constructor
    · intro hstored
      refine ⟨e, rfl, Decidable.by_contra fun hnot => ?_⟩
      obtain ⟨err, herror⟩ := store_rejected (v := v) hnot
      rw [herror] at hstored
      cases hstored
    · rintro ⟨_, heq, hisa⟩
      cases heq
      obtain ⟨_, h', hrun, -⟩ := store_accepted hs ht' hl he (.of_isa hs hbelow hl he hisa)
      rw [hrun]
  · rw [runOn_bind_error hfield, hfield]
    exact ⟨nofun, nofun⟩

/-- The field reads as what it was given, and the other fields read as before. -/
theorem write_reads (hs : h.Sound) (hbelow : h.types.BelowAbstract) (ht : h.typeOf v = .ok t)
    (hmutable : h.registry.isMutable t = .ok true) (hfree : t ≠ Builtin.moduleType ∨ i ≠ ModuleObject.parentField)
    (hrun : (write v i x).runOn h = (.ok ⟨⟩, h')) :
    (∃ e d, ((fieldLayout v i).runOn h).1 = .ok e ∧ stored h e x = .ok d ∧ (read v i).runOn h' = (.ok d, h')) ∧
      ∀ j, j ≠ i → ((read v j).runOn h').1 = ((read v j).runOn h).1 := by
  obtain ⟨e, hfield, hisa⟩ := (write_succeeds_iff hs hbelow ht hmutable hfree).1 (congrArg Prod.fst hrun)
  obtain ⟨t', l, f, ht', hl, he, hfound⟩ | ⟨err, h', hfound, -⟩ := fieldLayout_cases hs v i
  · rw [hfound] at hfield
    cases hfield
    have hlayout := runOn_fieldLayout hs ht' hl i
    have ha := Accepts.of_isa hs hbelow hl he hisa
    obtain ⟨d, hd⟩ := ha.exists_stored hs
    obtain ⟨_, h'', hstore, hfilled, hdatum⟩ := store_accepted hs ht' hl he ha
    rw [runOn_write hs ht hmutable hfree, runOn_bind_ok hfound, hstore] at hrun
    cases hrun
    have hr := hfilled.rewrites
    have ht'' := hr.typeOf_iff.2 ht'
    have hl'' : h'.registry.layouts.find? t' = some l := by rw [hr.registry]; exact hl
    have hi : l.field i = .ok e := congrArg Prod.fst (hlayout.symm.trans hfound)
    refine ⟨⟨e, d, by rw [hfound], hd, ?_⟩, fun j hne => ?_⟩
    · rw [runOn_read hfilled.sound ht'' hl'', hi, ← hd, ← hdatum]
      rfl
    · rw [runOn_read hfilled.sound ht'' hl'', runOn_read hs ht' hl]
      cases hj : l.field j with
      | error err => rfl
      | ok g =>
        have hsep := separate_of_ne hs hl (Layout.field_eq_ok.1 hj) (Layout.field_eq_ok.1 hi) hne
        exact hfilled.datumAt_eq hs ht' hl (mem_of_field hj) (List.forall_mem_singleton.2 hsep)
  · rw [hfound] at hfield
    cases hfield

/-- A field that may not change takes nothing. -/
theorem runOn_write_refused {err : Error} (ht : h.typeOf v = .ok t) (hfield : (fieldLayout v i).runOn h = (.ok e, h))
    (hcheck : checkMutable h t e = .error err) : (write v i x).runOn h = (.error err, h) := by
  unfold write
  rw [runOn_bind_ok (by rw [runOn_look, ht]), runOn_bind_ok hfield, runOn_bind_error (by rw [runOn_look, hcheck])]

/-- The fields of an immutable object do not change, and nothing else does. -/
theorem write_refuses (hs : h.Sound) (ht : h.typeOf v = .ok t) (hmutable : h.registry.isMutable t = .ok false) :
    ∃ err h', (write v i x).runOn h = (.error err, h') ∧ h.Learns h' ∧
      (∀ d, h.types.descriptor t = .ok d → hasLength d.kind = false → h' = h) := by
  have hkept := (fieldLayout_meets (h := h) v i).kept
  obtain ⟨t', l, e, -, -, -, hfield⟩ | ⟨err, h', hfield, -⟩ := fieldLayout_cases hs v i
  · obtain ⟨err, herr⟩ := checkMutable_error (e := e) hmutable
    exact ⟨err, h, runOn_write_refused ht hfield herr, .refl h, fun _ _ _ => rfl⟩
  · rw [hfield] at hkept
    have hrun : (write v i x).runOn h = (.error err, h') := by
      unfold write
      rw [runOn_bind_ok (by rw [runOn_look, ht]), runOn_bind_error hfield]
    refine ⟨err, h', hrun, hkept, fun d hd hfixed => ?_⟩
    obtain ⟨l, hl⟩ := hs.exists_layout ht hd hfixed
    exact (congrArg Prod.snd ((runOn_fieldLayout hs ht hl i).symm.trans hfield)).symm

end Record

end TypedHeap
