import TypedHeap.Proofs.Heap.Beside
import TypedHeap.Proofs.Object.Fields

/-!
# With a box and without

A scalar may be put in a box first, and the box stored, or it is stored as it is. A field may be read into a box,
and the box read, or the scalar is read from the field. Each shortcut has code of its own, and comes to the same.

* `Box.Boxed`: a scalar was put in a box, and that was all.
* `Box.unboxed`: reading the box that something else answers with.
* `Record.scalarField`: a store of a scalar once the field is known.

Main results: `boxed_of_run`, `readScalar_eq_unboxed`, `writeScalar_beside`.
-/

namespace TypedHeap

open TypedHeap.Action (runOn_bind_ok runOn_bind_error runOn_bind_eq_ok runOn_bind_asked runOn_look)
open Heap

variable {h h' h₁ : Heap} {b v : Value} {t : TypeRef} {d : Descriptor} {l : Layout} {e : FieldLayout} {i : Nat}
  {k : ScalarKind} {x : k.Carrier} {bs : List UInt8}

/-- A scalar is stored once its bytes are made. -/
theorem Heap.runOn_storeScalar {table : SymbolTable} {j : Nat}
    (hencode : (k.encode x).runOn h.symbols = (.ok bs, table)) (hend : v.offset + j + bs.length ≤ h.top) :
    (storeScalar (v.offset + j) k x).runOn h = (.ok ⟨⟩, ({ h with symbols := table } : Heap).put v j bs) := by
  have hrun : (encode k x).runOn h = (.ok bs, { h with symbols := table }) := by rw [runOn_encode, hencode]
  exact (runOn_bind_ok hrun).trans (runOn_writeBytes hend)

namespace Box

/-! ## Boxes -/

/-- A scalar was put in a new box, and nothing else happened. -/
structure Boxed (h : Heap) (k : ScalarKind) (x : k.Carrier) (b : Value) (bs : List UInt8) (h₁ : Heap) : Prop where
  sound : h₁.Sound
  fresh : ¬h.Live b
  beside : Beside b h h₁
  encode : (k.encode x).runOn h.symbols = (.ok bs, h₁.symbols)
  type : h₁.typeOf b = .ok k.type
  bits : h₁.memory.window b.offset k.size = bs

theorem boxed_of_run (hs : h.Sound) (hrun : (new k x).runOn h = (.ok b, h₁)) : ∃ bs, Boxed h k x b bs h₁ := by
  obtain ⟨v, h₂, hmade, hrun⟩ := runOn_bind_eq_ok.1 hrun
  obtain ⟨_, h₃, hstore, hrun⟩ := runOn_bind_eq_ok.1 hrun
  obtain ⟨bs, h₄, hencode, hwrite⟩ := runOn_bind_eq_ok.1 hstore
  cases hrun
  have hmeets := allocate_meets (S := fun w _ => ¬h.Live w) ⟨hs, fun hv _ => hv⟩ k.type 0
  have hs₂ : h₂.Sound := by
    have hsound := hmeets.kept.sound hs
    rwa [hmade] at hsound
  have hnew : NewObject h h₂ b k.type 0 := by
    have hanswer := hmeets.answer b (by rw [hmade])
    rwa [hmade] at hanswer
  rw [runOn_encode, hs.symbols_of_allocate hmade] at hencode
  obtain ⟨hbs, rfl⟩ := Prod.mk.inj hencode
  generalize htable : ((k.encode x).runOn h.symbols).2 = table at hwrite
  have hok : (k.encode x).runOn h.symbols = (.ok bs, table) := Prod.ext hbs htable
  have hs₄ : ({ h₂ with symbols := table } : Heap).Sound := hs₂.of_symbols table
  have ht : ({ h₂ with symbols := table } : Heap).typeOf b = .ok k.type := hnew.type
  obtain ⟨l, hl, hplain, hsize⟩ := hs₄.scalar_layout ht
  have hn := hs₄.size_bits ht hl hplain
  have hend := hs₄.end_le_top hn
  have hreach := hs₄.arena.reach
  have hlength : bs.length = l.size := (length_encode hok).trans hsize.symm
  rw [← Nat.add_zero b.offset, runOn_writeBytes (by omega)] at hwrite
  cases hwrite
  have hput : Rewrites (fun w _ => w = b) { h₂ with symbols := table } (put { h₂ with symbols := table } b 0 bs) :=
    .put hs₄.arena hn (by omega) fun _ _ _ => rfl
  have hr := (Rewrites.withSymbols (fun w _ => w = b) h₂ table).trans hput
  refine ⟨bs, hs₄.put_bits ht hl hplain hlength, hnew.fresh, ⟨⟨hnew.kept.toExtends.trans hr.extends, ?_⟩, ?_, ?_⟩, ?_,
    hput.typeOf_iff.2 ht, ?_⟩
  -- What was written to was no object before.
  · intro w m j hm hj _
    refine (hr.bytes (hnew.kept.size? hm) hj ?_).trans (hnew.kept.bytes hm hj id)
    rintro rfl
    exact hnew.fresh ⟨m, hm⟩
  · exact fun w hw => hnew.only w (hr.live_iff.1 hw)
  · rw [put_symbols]
    have hgrows := ScalarKind.runOn_encode_symbols k x h.symbols
    rw [htable] at hgrows
    show h.symbols.Grows table
    rw [hgrows]
    exact SymbolTable.grows_listing _ _
  · rw [put_symbols]
    exact hok
  · rw [← hsize]
    exact window_put (k := 0) (by omega) hlength

/-- What is in the box that an action answers with, once it is done. -/
def unboxed (k : ScalarKind) (action : HeapM Value) (h : Heap) : Except Error k.Carrier :=
  (action.runOn h).1 >>= read k (action.runOn h).2

theorem unboxed_ok {action : HeapM Value} (hrun : action.runOn h = (.ok v, h')) : unboxed k action h = read k h' v := by
  rw [unboxed, hrun]
  rfl

theorem unboxed_error {action : HeapM Value} {err : Error} (hrun : action.runOn h = (.error err, h')) :
    unboxed k action h = .error err := by
  rw [unboxed, hrun]
  rfl

/-- A box with a copy of some bits reads as the bits do. -/
theorem read_copy (ho : h.Orderly) (hd : h.types.descriptor t = .ok d) (hc : Copy h h' v t bs) (k : ScalarKind) :
    read k h' v = (Datum.bits t bs).read k h := by
  unfold read Datum.read
  rw [hc.type]
  show (if t ≠ k.type then throw (h'.scalarMismatch k t) >>= _ else _ : Except Error k.Carrier) =
    if t = k.type then _ else _
  by_cases hsame : t = k.type
  · subst hsame
    obtain ⟨l, hl, hbits, hsize⟩ := hc.sound.scalar_layout hc.type
    have hn := hc.sound.size_bits hc.type hl hbits
    have hend := hc.sound.end_le_top hn
    have hpayload := (hc.sound.payload_eq hn).symm.trans hc.payload
    rw [if_neg (not_not_intro rfl), if_pos rfl, bytes_eq (by omega), ← hsize, Except.ok.inj hpayload, hc.symbols]
    rfl
  · have hmismatch : h'.scalarMismatch k t = h.scalarMismatch k t :=
      hc.extension.registry.types.mismatch_eq ho.types (ho.sound.contains_scalar k) (TypeTable.contains_iff.2 ⟨d, hd⟩)
    rw [if_pos hsame, if_neg hsame, hmismatch]
    rfl

/-- Bits that lie in an object are read by way of a box as they are read where they lie. -/
theorem unboxed_copied {w : Value} {j n : Nat} (ho : h.Orderly)
    (hl : h.registry.layouts.find? t = some l) (hbits : l.isBits = true) (hw : h.size? w = some n)
    (hend : j + l.size ≤ n) (hroom : h.nextStart + l.size ≤ h.limit) (k : ScalarKind) :
    unboxed k (copied t (w.offset + j) l.size) h =
      (Datum.bits t (h.memory.window (w.offset + j) l.size)).read k h := by
  obtain ⟨v, h', hrun, hcopy⟩ := (ho.sound.copies hl hbits hw hend).1 hroom
  obtain ⟨d, hd, -⟩ := ho.sound.registry.layouts.describes hl
  rw [unboxed_ok hrun, read_copy ho hd hcopy k]

end Box

namespace Record

/-! ## Reading -/

/-- A scalar is read from a field as it is from the value of the field, if there is room for that. -/
theorem readScalar_eq_unboxed (ho : h.Orderly) (k : ScalarKind) (v : Value) (i : Nat)
    (hroom : ∀ t bs, ((read v i).runOn h).1 = .ok (.bits t bs) → h.nextStart + bs.length ≤ h.limit) :
    ((readScalar k v i).runOn h).1 = Box.unboxed k (readValue v i) h := by
  have hs := ho.sound
  obtain ⟨t, l, e, ht, hl, he, hfield⟩ | ⟨err, h', hfield, -⟩ := fieldLayout_cases hs v i
  · have hread : (read v i).runOn h = (datumAt h v e, h) := runOn_bind_asked hfield fun f h => datumAt h v f
    have hscalar : (readScalar k v i).runOn h = (datumAt h v e >>= Datum.read k h, h) :=
      runOn_bind_asked hread fun d h => d.read k h
    have hvalue : (readValue v i).runOn h =
        (if e.isInline then copied e.type (v.offset + e.offset) e.size
          else Action.look fun h => refAt h v e (v.offset + e.offset)).runOn h :=
      (runOn_bind_ok hfield).trans (runOn_bind_ok (runOn_place hs ht hl he))
    rw [hread] at hroom
    rw [hscalar]
    cases hin : e.isInline with
    | true =>
      rw [if_pos hin] at hvalue
      rw [datumAt_inline hs ht hl he hin] at hroom ⊢
      obtain ⟨m, hm, hbits, hsize⟩ := hs.registry.layouts.inline hl he hin
      have hend := hs.registry.layouts.end_le hl he
      have hroom := hroom _ _ rfl
      rw [Memory.length_window] at hroom
      rw [Box.unboxed, hvalue, ← hsize]
      rw [← hsize] at hend hroom
      exact (Box.unboxed_copied ho hm hbits (hs.size_record ht hl he) hend hroom k).symm
    | false =>
      rw [if_neg (by rw [hin]; decide), runOn_look] at hvalue
      rw [Box.unboxed, hvalue, datumAt, place_eq hs ht hl he, hin]
      show ((refAt h v e (v.offset + e.offset) >>= fun x => Except.ok (Datum.ref x)) >>= Datum.read k h) = _
      cases refAt h v e (v.offset + e.offset) <;> rfl
  · have hread : (readScalar k v i).runOn h = (.error err, h') := runOn_bind_error (runOn_bind_error hfield)
    have hvalue : (readValue v i).runOn h = (.error err, h') := runOn_bind_error hfield
    rw [hread, Box.unboxed_error hvalue]

/-! ## Writing -/

/-- Who asks whether the fields of an object may change gets the same answer beside a box. -/
theorem checkMutable_beside (hb : Beside b h h₁) (ho : h.Orderly) (hd : h.types.descriptor t = .ok d) :
    checkMutable h₁ t e = checkMutable h t e := by
  have hrender : h₁.types.render t = h.types.render t :=
    hb.kept.registry.types.render_eq ho.types (TypeTable.contains_iff.2 ⟨d, hd⟩)
  have hmutable {g : Heap} (hg : g.types.descriptor t = .ok d) : g.registry.isMutable t = .ok d.isMutable :=
    bind_eq_ok.2 ⟨d, hg, rfl⟩
  unfold checkMutable
  rw [hmutable hd, hmutable (hb.kept.descriptor hd), hrender]

/-- A field that may not change takes no scalar. -/
theorem runOn_writeScalar_refused {err : Error} (ht : h.typeOf v = .ok t)
    (hfield : (fieldLayout v i).runOn h = (.ok e, h)) (hcheck : checkMutable h t e = .error err) :
    (writeScalar v i k x).runOn h = (.error err, h) := by
  have hask : (Action.look (·.typeOf v)).runOn h = (.ok t, h) := by rw [runOn_look, ht]
  unfold writeScalar
  rw [runOn_bind_ok hask, runOn_bind_ok hfield, runOn_bind_error (by rw [runOn_look, hcheck])]

/-- A store of a scalar in an inline field that may change. -/
def scalarField (v : Value) (e : FieldLayout) (k : ScalarKind) (x : k.Carrier) : HeapM Unit :=
  if e.type = k.type then storeScalar (v.offset + e.offset) k x
  else Action.look fun h => throw (h.types.mismatch e.type k.type)

theorem runOn_writeScalar (hs : h.Sound) (ht : h.typeOf v = .ok t) (hl : h.registry.layouts.find? t = some l)
    (he : e ∈ l.fields) (hfield : (fieldLayout v i).runOn h = (.ok e, h)) (hcheck : checkMutable h t e = .ok ⟨⟩)
    (hin : e.isInline = true) :
    (writeScalar v i k x).runOn h = (scalarField v e k x).runOn h := by
  have hask : (Action.look (·.typeOf v)).runOn h = (.ok t, h) := by rw [runOn_look, ht]
  unfold writeScalar scalarField
  rw [runOn_bind_ok hask, runOn_bind_ok hfield, runOn_bind_ok (by rw [runOn_look, hcheck]), hin]
  by_cases htype : e.type = k.type
  · rw [if_pos htype, if_neg fun h => h.elim (by decide) fun hne => hne htype]
    exact runOn_bind_ok (runOn_place hs ht hl he)
  · rw [if_neg htype, if_pos (.inr htype)]
    rfl

/-- The parent of a module is no inline field. -/
theorem ne_parentField (hs : h.Sound) (hl : h.registry.layouts.find? t = some l) (hfield : l.field i = .ok e)
    (hin : e.isInline = true) : t ≠ Builtin.moduleType ∨ i ≠ ModuleObject.parentField := by
  by_cases hmodule : t = Builtin.moduleType
  · subst hmodule
    refine .inr ?_
    rintro rfl
    rw [Layout.field, hs.module_fields hl] at hfield
    cases hfield
    cases hin
  · exact .inl hmodule

section Fields

variable (ho : h.Orderly) (hbelow : h₁.types.BelowAbstract) (hb : Box.Boxed h k x b bs h₁)

include hbelow hb

/-- An inline field of another type takes no box with the scalar. -/
theorem store_box_rejected {m : Layout} (hm : h₁.registry.layouts.find? e.type = some m) (hother : e.type ≠ k.type) :
    (store v e b).runOn h₁ = (.error (h₁.types.mismatch e.type k.type), h₁) := by
  obtain ⟨fits, hfits, hiff⟩ := hb.sound.isa_decides_layout hbelow hm hb.type
  have hno : fits = false := Bool.eq_false_iff.2 fun hyes => hother (hiff.1 hyes).symm
  rw [hno] at hfits
  have htype : (Action.look (·.typeOf b)).runOn h₁ = (.ok k.type, h₁) := by rw [runOn_look, hb.type]
  have hask : (Action.look (·.types.isa k.type e.type)).runOn h₁ = (.ok false, h₁) := by rw [runOn_look, hfits]
  exact (runOn_bind_ok htype).trans (runOn_bind_ok hask)

include ho

/-- The bytes of the scalar are written, or the bytes of the box are copied. -/
theorem scalarField_beside (ht : h.typeOf v = .ok t) (hl : h.registry.layouts.find? t = some l) (he : e ∈ l.fields)
    (hin : e.isInline = true) : EndBeside b ((scalarField v e k x).runOn h) ((store v e b).runOn h₁) := by
  have hs := ho.sound
  obtain ⟨m, hm, -, hsize⟩ := hs.registry.layouts.inline hl he hin
  unfold scalarField
  by_cases htype : e.type = k.type
  · have hn := hs.size_record ht hl he
    have hend := hs.registry.layouts.end_le hl he
    have htop := hs.end_le_top hn
    have hstore := runOn_store_bits hb.sound (hb.beside.kept.typeOf ht) (hb.beside.kept.registry.layouts hl) he hin
      (htype ▸ hb.type)
    rw [htype] at hm
    have hsize : e.size = k.size := hsize.symm.trans (hs.scalar_size hm).2
    have hlength : bs.length = k.size := length_encode hb.encode
    rw [if_pos htype, runOn_storeScalar hb.encode (by omega), hstore, hsize, hb.bits]
    exact ⟨rfl, hb.beside.listed.put (hs.of_symbols _).arena hb.sound.arena hn (by omega)⟩
  · obtain ⟨c, hc, -⟩ := hs.registry.layouts.describes hm
    have hmismatch := hb.beside.mismatch_eq ho (TypeTable.contains_iff.2 ⟨c, hc⟩) (hs.contains_scalar k)
    rw [if_neg htype, store_box_rejected hbelow hb (hb.beside.kept.registry.layouts hm) htype, hmismatch]
    exact ⟨rfl, hb.beside⟩

/-- An inline field takes a scalar as it takes a box with the scalar. -/
theorem writeScalar_beside (hfield : ((fieldLayout v i).runOn h).1 = .ok e) (hin : e.isInline = true) :
    EndBeside b ((writeScalar v i k x).runOn h) ((write v i b).runOn h₁) := by
  have hs := ho.sound
  have hs₁ := hb.sound
  obtain ⟨t, l, f, ht, hl, he, hfound⟩ | ⟨err, h', hfound, -⟩ := fieldLayout_cases hs v i
  · rw [hfound] at hfield
    cases hfield
    have hplace : l.field i = .ok e := congrArg Prod.fst ((runOn_fieldLayout hs ht hl i).symm.trans hfound)
    have ht₁ := hb.beside.kept.typeOf ht
    have hfound₁ : (fieldLayout v i).runOn h₁ = (.ok e, h₁) := by
      rw [runOn_fieldLayout hs₁ ht₁ (hb.beside.kept.registry.layouts hl), hplace]
    obtain ⟨d, n, hd, -, -⟩ := hs.exists_shaped ht
    have hmutable {g : Heap} (hg : g.types.descriptor t = .ok d) : g.registry.isMutable t = .ok d.isMutable :=
      bind_eq_ok.2 ⟨d, hg, rfl⟩
    have hcheck := checkMutable_beside (e := e) hb.beside ho hd
    cases hchange : d.isMutable with
    | false =>
      obtain ⟨err, herr⟩ := checkMutable_error (e := e) ((hmutable hd).trans (by rw [hchange]))
      rw [runOn_writeScalar_refused ht hfound herr, runOn_write_refused ht₁ hfound₁ (hcheck.trans herr)]
      exact ⟨rfl, hb.beside⟩
    | true =>
      have hmutable₁ : h₁.registry.isMutable t = .ok true :=
        (hmutable (hb.beside.kept.descriptor hd)).trans (by rw [hchange])
      rw [runOn_writeScalar hs ht hl he hfound (checkMutable_eq_ok ((hmutable hd).trans (by rw [hchange]))) hin,
        runOn_write hs₁ ht₁ hmutable₁ (ne_parentField hs hl hplace hin), runOn_bind_ok hfound₁]
      exact scalarField_beside ho hbelow hb ht hl he hin
  · rw [hfound] at hfield
    cases hfield

end Fields

end Record

end TypedHeap
