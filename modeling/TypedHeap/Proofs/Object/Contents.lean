import TypedHeap.Proofs.Heap.Room
import TypedHeap.Proofs.Object.Box
import TypedHeap.Proofs.Object.Reading
import TypedHeap.Proofs.Scalar

/-!
# What new objects hold

A box that was made holds its scalar, and an object that was made from values holds what these values stand
for. Making them fails for want of room only, and what they hold is read back.

* `Content`: what a field should hold, a scalar or a reference.
* `Heap.Boxes`, `Heap.RecordOf`: an object is the box of a scalar, or has fields with given contents.
* `Heap.Offers`: a value that stands for a content.

Main results: `Box.new_makes`, `Record.new_makes`, `RecordOf.runOn_readScalar`, `RecordOf.runOn_readRef`.
-/

namespace TypedHeap

open TypedHeap.Action (Yields runOn_bind_ok runOn_look runOn_pure)
open Layouts

/-- What a field holds: a scalar, or a reference if there is one. -/
inductive Content where
  | scalar (k : ScalarKind) (x : k.Carrier)
  | ref (x : Option Value)

namespace Content

/-- Contents of fields that are declared with a type. -/
def IsOf (t : TypeRef) : Content → Prop
  | scalar k _ => t = k.type
  | ref _ => ScalarKind.ofType? t = none

/-- Contents that a field has the right bytes for. -/
def Suits (e : FieldLayout) : Content → Prop
  | scalar k _ => e.type = k.type ∧ e.size = k.size ∧ e.isInline = true
  | ref _ => e.size = refSize ∧ e.isInline = false

/-- A field of a simple type has the right bytes. -/
theorem IsOf.suits {c : Content} {p : Symbol × TypeRef} {e : FieldLayout} (hc : c.IsOf p.2)
    (he : (simpleSlot p).Placed e) : c.Suits e := by
  obtain ⟨name, t⟩ := p
  obtain ⟨-, htype, hsize, hinline, -⟩ := he
  cases c with
  | scalar k x =>
    have hc : t = k.type := hc
    rw [hc, simpleSlot_scalar] at htype hsize hinline
    exact ⟨htype, hsize, hinline⟩
  | ref x =>
    have hc : ScalarKind.ofType? t = none := hc
    simp only [simpleSlot, hc] at hsize hinline
    exact ⟨hsize, hinline⟩

end Content

namespace Heap

variable {h h' : Heap} {v y : Value} {t : TypeRef} {e : FieldLayout} {c : Content} {cs : List Content} {n i : Nat}
  {S : Value → Nat → Prop} {k : ScalarKind} {x : k.Carrier} {d : Demand}

/-! ## Boxes -/

/-- An object is the box of a scalar. -/
structure Boxes (h : Heap) (v : Value) (k : ScalarKind) (x : k.Carrier) : Prop where
  type : h.typeOf v = .ok k.type
  bits : k.decode h.symbols (h.memory.window v.offset k.size) = .ok x

/-- It stays one as long as nobody writes to it. -/
theorem Boxes.keeps (hb : h.Boxes v k x) (hs : h.Sound) (hk : Keeps S h h') (hS : ∀ j, ¬S v j)
    (hgrows : h.symbols.Grows h'.symbols) : h'.Boxes v k x where
  type := hk.typeOf hb.type
  bits := by
    obtain ⟨l, hl, hbits, hsize⟩ := hs.scalar_layout hb.type
    have hn := hs.size_bits hb.type hl hbits
    have hwindow : h'.memory.window v.offset k.size = h.memory.window v.offset k.size :=
      Memory.window_congr fun j hj => hk.bytes hn (by omega) (hS j)
    rw [hwindow]
    exact ScalarKind.decode_grows hgrows hb.bits

/-- A box that was filled is the box of its scalar. -/
theorem boxes_of_encodes (he : Datum.Encodes h k x (.ref v)) (hs : h.Sound) (hkeys : h.symbols.Bounded) :
    h.Boxes v k x := by
  cases he with
  | box encode type payload =>
    obtain ⟨l, hl, hbits, hsize⟩ := hs.scalar_layout type
    rw [hs.payload_eq (hs.size_bits type hl hbits), hsize] at payload
    cases payload
    exact ⟨type, ScalarKind.decode_of_encode encode hkeys⟩

/-- The scalar is read from its box. -/
theorem Boxes.read_eq (hb : h.Boxes v k x) (hs : h.Sound) : Box.read k h v = .ok x := by
  obtain ⟨l, hl, hbits, hsize⟩ := hs.scalar_layout hb.type
  have hend := hs.end_le_top (hs.size_bits hb.type hl hbits)
  refine bind_eq_ok.2 ⟨_, hb.type, ?_⟩
  rw [if_neg (not_not_intro rfl)]
  exact bind_eq_ok.2 ⟨_, bytes_eq (by omega), hb.bits⟩

/-- A box of another kind is asked for. -/
theorem Boxes.read_of_ne {j : ScalarKind} (hb : h.Boxes v k x) (hs : h.Sound) (hne : j ≠ k) :
    Box.read j h v = .error (.typeMismatch j.name k.name) := by
  have htype : k.type ≠ j.type := fun heq => hne (ScalarKind.type_injective heq).symm
  rw [Box.read, hb.type]
  show (if k.type ≠ j.type then throw (h.scalarMismatch j k.type) >>= _ else _ : Except Error j.Carrier) = _
  rw [if_pos htype, scalarMismatch, types, mismatch_scalar hs.registry.types]
  rfl

/-- The bytes of a scalar, if there are keys for its symbols. -/
theorem encode_yields (hkeys : h.symbols.Bounded) (ha : h.symbols.AdmitsAll (k.symbols x)) :
    Yields (encode k x) h fun bs h' => h' = { h with symbols := h.symbols.listing (k.symbols x) } ∧
      bs.length = k.size ∧ k.decode h'.symbols bs = .ok x := by
  obtain ⟨bs, table, hrun, -, hlength, hdecode⟩ :=
    Yields.of_fails (ScalarKind.encode_fails ha) (ScalarKind.encode_meets hkeys k x)
  have htable := ScalarKind.runOn_encode_symbols k x h.symbols
  rw [hrun] at htable
  refine .of_ok (by rw [runOn_encode, hrun]) ⟨?_, hlength, hdecode⟩
  rw [← htable]

/-- An object for a scalar gets its bytes. -/
theorem fill_yields {bs : List UInt8} (hs : h.Sound) (ht : h.typeOf v = .ok k.type)
    (hlength : bs.length = k.size) (hbits : k.decode h.symbols bs = .ok x) :
    Yields (writeBytes v.offset bs) h fun _ h' =>
      h'.Sound ∧ Rewrites (fun w _ => w = v) h h' ∧ h'.symbols = h.symbols ∧ h'.Boxes v k x := by
  obtain ⟨l, hl, hplain, hsize⟩ := hs.scalar_layout ht
  have hn := hs.size_bits ht hl hplain
  have hend : v.offset + 0 + bs.length ≤ h.top := by
    have := hs.end_le_top hn
    omega
  have hr : Rewrites (fun w _ => w = v) h (h.put v 0 bs) :=
    .put hs.arena hn (by omega) fun _ _ _ => rfl
  have hwindow := window_put (Nat.le_trans hend hs.arena.reach) hlength
  refine .of_ok (runOn_writeBytes hend) ⟨hs.put_bits ht hl hplain (hlength.trans hsize.symm), hr, put_symbols, ?_⟩
  refine ⟨hr.typeOf_iff.2 ht, ?_⟩
  rw [Nat.add_zero] at hwindow
  rw [hwindow, put_symbols, hbits]

/-! ## Fields -/

/-- The field of an object holds a content. -/
def Says (h : Heap) (v : Value) (e : FieldLayout) : Content → Prop
  | .scalar k x => k.decode h.symbols (h.memory.window (v.offset + e.offset) k.size) = .ok x
  | .ref x => h.slot v e.offset = x

/-- A value stands for a content of a type: it is the box of the scalar, or the reference itself. -/
def Offers (h : Heap) (t : TypeRef) (y : Value) : Content → Prop
  | .scalar k x => t = k.type ∧ h.Boxes y k x
  | .ref x => ScalarKind.ofType? t = none ∧ x = some y ∧ h.isa y t = .ok true

theorem Boxes.offers (hy : h.Boxes y k x) : h.Offers k.type y (.scalar k x) := ⟨rfl, hy⟩

/-- A reference is offered as itself, for a field of its type or of any. -/
theorem offers_self (hy : h.typeOf y = .ok t) (hplain : ScalarKind.ofType? t = none) :
    h.Offers t y (.ref (some y)) :=
  ⟨hplain, rfl, isa_eq_ok.2 ⟨t, hy, TypeTable.isa_self _ _⟩⟩

theorem offers_any (hs : h.Sound) (hy : h.Live y) : h.Offers Builtin.any y (.ref (some y)) := by
  obtain ⟨s, hs⟩ := hs.exists_typeOf hy
  exact ⟨rfl, rfl, isa_eq_ok.2 ⟨s, hs, TypeTable.isa_any _ _⟩⟩

theorem Offers.isOf (hy : h.Offers t y c) : c.IsOf t := by
  cases c with
  | scalar k x => exact hy.1
  | ref x => exact hy.1

theorem Offers.live (hy : h.Offers t y c) : h.Live y := by
  cases c with
  | scalar k x => exact live_of_typeOf hy.2.type
  | ref x =>
    obtain ⟨s, hs, -⟩ := isa_eq_ok.1 hy.2.2
    exact live_of_typeOf hs

theorem Offers.isa (hy : h.Offers t y c) : h.isa y t = .ok true := by
  cases c with
  | scalar k x =>
    obtain ⟨rfl, hbox⟩ := hy
    exact isa_eq_ok.2 ⟨_, hbox.type, TypeTable.isa_self _ _⟩
  | ref x => exact hy.2.2

theorem Offers.keeps (hy : h.Offers t y c) (hs : h.Sound) (hk : Keeps S h h') (hS : ∀ j, ¬S y j)
    (hgrows : h.symbols.Grows h'.symbols) : h'.Offers t y c := by
  cases c with
  | scalar k x => exact ⟨hy.1, hy.2.keeps hs hk hS hgrows⟩
  | ref x => exact ⟨hy.1, hy.2.1, hk.toExtends.isa hy.2.2⟩

/-- What was offered before objects were made is offered still. -/
theorem Offers.made (hy : h.Offers t y c) (hs : h.Sound) (hm : Made d h h') : h'.Offers t y c :=
  hy.keeps hs hm.keeps (fun _ hdead => hdead hy.live) hm.symbols_grow

/-- A field holds what it holds until its bytes change. -/
theorem Says.keeps (he : h.Says v e c) (hc : c.Suits e) (hn : h.size? v = some n) (hend : e.offset + e.size ≤ n)
    (hk : Keeps S h h') (hS : ∀ j, e.offset ≤ j → j < e.offset + e.size → ¬S v j)
    (hgrows : h.symbols.Grows h'.symbols) : h'.Says v e c := by
  cases c with
  | scalar k x =>
    obtain ⟨-, hsize, -⟩ := hc
    have hbits : k.decode h.symbols (h.memory.window (v.offset + e.offset) k.size) = .ok x := he
    have hwindow : h'.memory.window (v.offset + e.offset) k.size = h.memory.window (v.offset + e.offset) k.size :=
      window_eq_of_byte_eq fun j hj => hk.bytes hn (by omega) (hS _ (by omega) (by omega))
    show k.decode h'.symbols (h'.memory.window (v.offset + e.offset) k.size) = .ok x
    rw [hwindow]
    exact ScalarKind.decode_grows hgrows hbits
  | ref x =>
    obtain ⟨hsize, -⟩ := hc
    rw [refSize] at hsize
    exact (hk.slot_eq hn (by omega) fun j hj hj' => hS j hj (by omega)).trans he

/-- An object of a type has fields with given contents. -/
structure RecordOf (h : Heap) (v : Value) (t : TypeRef) (cs : List Content) : Prop where
  type : h.typeOf v = .ok t
  fields : ∃ l, h.registry.layouts.find? t = some l ∧
    List.Forall₂ (fun e c => c.Suits e ∧ h.Says v e c) l.fields cs

/-- It keeps them as long as nobody writes to it. -/
theorem RecordOf.keeps (hr : h.RecordOf v t cs) (hs : h.Sound) (hk : Keeps S h h') (hS : ∀ j, ¬S v j)
    (hgrows : h.symbols.Grows h'.symbols) : h'.RecordOf v t cs where
  type := hk.typeOf hr.type
  fields := by
    obtain ⟨l, hl, hfields⟩ := hr.fields
    refine ⟨l, hk.registry.layouts hl, ?_⟩
    refine ((List.forall₂_and_left _ _).2 ⟨fun _ he => he, hfields⟩).imp fun e c hec => ?_
    obtain ⟨he, hc, hsays⟩ := hec
    have hend := hs.registry.layouts.end_le hl he
    exact ⟨hc, hsays.keeps hc (hs.size_record hr.type hl he) hend hk (fun j _ _ => hS j) hgrows⟩

/-- A field of such an object. -/
theorem RecordOf.exists_field (hr : h.RecordOf v t cs) (hc : cs[i]? = some c) :
    ∃ l e, h.registry.layouts.find? t = some l ∧ l.field i = .ok e ∧ c.Suits e ∧ h.Says v e c := by
  obtain ⟨l, hl, hfields⟩ := hr.fields
  obtain ⟨hlength, hall⟩ := List.forall₂_iff_get.1 hfields
  obtain ⟨hi, rfl⟩ := List.getElem?_eq_some_iff.1 hc
  refine ⟨l, l.fields[i], hl, ?_, hall i (hlength ▸ hi) hi⟩
  rw [Layout.field, List.getElem?_eq_getElem (hlength ▸ hi)]

end Heap

open Heap

variable {h h' : Heap} {v y : Value} {t : TypeRef} {l : Layout} {e : FieldLayout} {c : Content}
  {cs : List Content} {n i : Nat} {S : Value → Nat → Prop} {k : ScalarKind} {x : k.Carrier} {d : Descriptor}

namespace Box

/-- What a box takes. -/
def demand (k : ScalarKind) (x : k.Carrier) : Demand := ⟨[k.size], k.symbols x⟩

theorem new_makes (ho : h.Orderly) (k : ScalarKind) (x : k.Carrier) (ha : h.Affords (demand k x)) :
    Makes (demand k x) (new k x) h fun v h' => ¬h.Live v ∧ h'.Boxes v k x := by
  have hd := Layouts.descriptor_scalar ho.sound.registry.types k
  have hsize := sizeOf_yields ho (Layouts.laidOut_scalar ho.sound.registry.types ho.types k)
  have ha : h.Affords (.object k.size ++ ⟨[], k.symbols x⟩) := ha
  unfold new
  refine Yields.bind (allocate_fixed_makes ho hd (.inr ⟨_, _, rfl⟩) hsize ha.left) fun v h₁ hdone => ?_
  obtain ⟨hm, hv⟩ := hdone
  have hkeys := (ha.after hm).keys
  refine Yields.bind (y := storeScalar v.offset k x) (P := fun _ h' => Made (demand k x) h h' ∧ h'.Boxes v k x)
    ?_ fun _ h' hdone => Yields.pure ⟨hdone.1, hv.fresh, hdone.2⟩
  refine Yields.bind (encode_yields (hm.orderly ho).keys hkeys) fun bs h₂ hbs => ?_
  obtain ⟨rfl, hlength, hbits⟩ := hbs
  have hlisted := hm.trans (.listed hm.sound (k.symbols x))
  refine (fill_yields hlisted.sound hv.type hlength hbits).mono fun _ h₃ hfilled => ?_
  obtain ⟨hs, hr, hsymbols, hbox⟩ := hfilled
  refine ⟨hlisted.rewrites hr hs ?_ hsymbols, hbox⟩
  rintro w _ rfl
  exact hv.fresh

/-- A type that is registered becomes an object. -/
theorem newType_makes {s : Descriptor} (ho : h.Orderly) (ht : h.types.descriptor t = .ok s)
    (ha : h.Affords (demand .dataType t)) :
    Makes (demand .dataType t) (newType t) h fun v h' => ¬h.Live v ∧ h'.Boxes v .dataType t :=
  Makes.bind_ok (Action.runOn_get h) (Makes.look_bind (f := fun _ => h.types.descriptor t) ht
    (new_makes ho .dataType t ha))

end Box

/-! ## Filling fields -/

namespace Record

/-- Fields of an object were overwritten. -/
structure Filled (v : Value) (es : List FieldLayout) (h h' : Heap) : Prop where
  sound : h'.Sound
  rewrites : Rewrites (fun w j => w = v ∧ ∃ e ∈ es, e.offset ≤ j ∧ j < e.offset + e.size) h h'
  symbols : h'.symbols = h.symbols

/-- The bits of an object are copied into an inline field of its type. -/
theorem runOn_store_bits (hs : h.Sound) (ht : h.typeOf v = .ok t) (hl : h.registry.layouts.find? t = some l)
    (he : e ∈ l.fields) (hin : e.isInline = true) (hy : h.typeOf y = .ok e.type) :
    (store v e y).runOn h = (.ok ⟨⟩, h.put v e.offset (h.memory.window y.offset e.size)) := by
  obtain ⟨bl, hbl, hbits, hbsize⟩ := hs.registry.layouts.inline hl he hin
  have hbtop := hs.end_le_top (hs.size_bits hy hbl hbits)
  have hend := hs.registry.layouts.end_le hl he
  have htop := hs.end_le_top (hs.size_record ht hl he)
  have htype : (Action.look (·.typeOf y)).runOn h = (.ok e.type, h) := by rw [runOn_look, hy]
  have hfits : (Action.look (·.types.isa e.type e.type)).runOn h = (.ok true, h) := by
    rw [runOn_look, TypeTable.isa_self]
  unfold store
  rw [runOn_bind_ok htype, runOn_bind_ok hfits, if_neg (by decide), runOn_bind_ok (runOn_place hs ht hl he),
    if_pos hin]
  exact runOn_copyBytes (by omega) (by omega)

theorem store_bits_yields (hs : h.Sound) (ht : h.typeOf v = .ok t) (hl : h.registry.layouts.find? t = some l)
    (he : e ∈ l.fields) (hin : e.isInline = true) (hy : h.typeOf y = .ok e.type) :
    Yields (store v e y) h fun _ h' => Filled v [e] h h' ∧
      h'.memory.window (v.offset + e.offset) e.size = h.memory.window y.offset e.size := by
  have hend := hs.registry.layouts.end_le hl he
  have hn := hs.size_record ht hl he
  have htop := hs.end_le_top hn
  have hreach := hs.arena.reach
  have hlength := Memory.length_window h.memory y.offset e.size
  refine .of_ok (runOn_store_bits hs ht hl he hin hy) ⟨⟨?_, ?_, put_symbols⟩, window_put (by omega) hlength⟩
  · exact hs.put_field ht hl he hlength fun hout => by rw [hin] at hout; cases hout
  · exact .put hs.arena hn (by omega) fun j hj hj' => ⟨rfl, e, List.mem_singleton_self e, hj, by omega⟩

/-- A field takes the scalar in a box. -/
theorem store_box_yields (hs : h.Sound) (ht : h.typeOf v = .ok t) (hl : h.registry.layouts.find? t = some l)
    (he : e ∈ l.fields) (hc : Content.Suits e (.scalar k x)) (hbox : h.Boxes y k x) :
    Yields (store v e y) h fun _ h' => Filled v [e] h h' ∧ h'.Says v e (.scalar k x) := by
  obtain ⟨htype, hsize, hin⟩ := hc
  refine (store_bits_yields hs ht hl he hin (by rw [htype]; exact hbox.type)).mono fun _ h' hdone => ?_
  obtain ⟨hfilled, hwindow⟩ := hdone
  refine ⟨hfilled, ?_⟩
  show k.decode h'.symbols (h'.memory.window (v.offset + e.offset) k.size) = .ok x
  rw [hsize] at hwindow
  rw [hwindow, hfilled.symbols, hbox.bits]

/-- A field takes a reference. -/
theorem store_ref_yields (hs : h.Sound) (ht : h.typeOf v = .ok t) (hl : h.registry.layouts.find? t = some l)
    (he : e ∈ l.fields) (hc : Content.Suits e (.ref (some y))) (hy : h.isa y e.type = .ok true) :
    Yields (store v e y) h fun _ h' => Filled v [e] h h' ∧ h'.Says v e (.ref (some y)) := by
  obtain ⟨hsize, hout⟩ := hc
  obtain ⟨s, hys, hfits⟩ := isa_eq_ok.1 hy
  have hend := hs.registry.layouts.end_le hl he
  have hn := hs.size_record ht hl he
  have htop := hs.end_le_top hn
  have hreach := hs.arena.reach
  rw [hsize, refSize] at hend
  have hs' := hs.put_fieldRef ht hl he hout hy
  have hr : Rewrites (fun w j => w = v ∧ ∃ g ∈ [e], g.offset ≤ j ∧ j < g.offset + g.size) h
      (h.putWord v e.offset y.offset) := by
    refine .putWord hs.arena hn hend fun j hj hj' => ⟨rfl, e, List.mem_singleton_self e, hj, ?_⟩
    rw [hsize, refSize]
    exact hj'
  have hguarded := Rewrites.guarded (S := fun _ _ => False) hs'.arena v y
  have hrun := runOn_storeRef_live hs'.arena (hr.live_iff.2 ⟨_, hn⟩) (hr.live_iff.2 (live_of_typeOf hys))
    (by omega)
  unfold store
  refine Yields.look_bind hys (Yields.look_bind hfits ?_)
  rw [if_neg (by decide)]
  refine Yields.bind_ok (runOn_place hs ht hl he) ?_
  rw [if_neg (ne_true_of_eq_false hout)]
  refine .of_ok hrun ⟨⟨hs'.guarded v y, hr.trans (hguarded.mono fun _ _ => False.elim), ?_⟩, ?_⟩
  · rw [symbols_guarded hs'.arena, putWord, put_symbols]
  · show ((h.putWord v e.offset y.offset).guarded v y).slot v e.offset = some y
    rw [hguarded.keeps.slot_eq ((hr.size?_eq v).trans hn) hend fun _ _ _ => id]
    exact slot_putWord (x := some y) (by omega)

/-- A field takes what an offered value stands for. -/
theorem store_yields (hs : h.Sound) (ht : h.typeOf v = .ok t) (hl : h.registry.layouts.find? t = some l)
    (he : e ∈ l.fields) (hc : c.Suits e) (hy : h.Offers e.type y c) :
    Yields (store v e y) h fun _ h' => Filled v [e] h h' ∧ h'.Says v e c := by
  cases c with
  | scalar k x => exact store_box_yields hs ht hl he hc hy.2
  | ref x =>
    obtain ⟨-, rfl, hisa⟩ := hy
    exact store_ref_yields hs ht hl he hc hisa

/-- One field was overwritten, and then others. -/
theorem Filled.cons {h'' : Heap} {es : List FieldLayout} (hf : Filled v [e] h h') (hf' : Filled v es h' h'') :
    Filled v (e :: es) h h'' where
  sound := hf'.sound
  rewrites := by
    refine (hf.rewrites.mono ?_).trans (hf'.rewrites.mono ?_)
    · rintro w j ⟨rfl, g, hg, hj⟩
      exact ⟨rfl, g, List.mem_cons.2 (.inl (List.mem_singleton.1 hg)), hj⟩
    · rintro w j ⟨rfl, g, hg, hj⟩
      exact ⟨rfl, g, List.mem_cons_of_mem _ hg, hj⟩
  symbols := hf'.symbols.trans hf.symbols

/-- Fields take, one after the other, what offered values stand for. -/
theorem storeAll_yields {es : List FieldLayout} {items : List (Value × Content)} (hs : h.Sound)
    (ht : h.typeOf v = .ok t) (hl : h.registry.layouts.find? t = some l) (hes : ∀ e ∈ es, e ∈ l.fields)
    (hseparate : es.Pairwise Layout.Separate)
    (hitems : List.Forall₂ (fun e i => i.1 ≠ v ∧ i.2.Suits e ∧ h.Offers e.type i.1 i.2) es items) :
    Yields (storeAll v (es.zip (items.map Prod.fst))) h fun _ h' =>
      Filled v es h h' ∧ List.Forall₂ (fun e i => i.2.Suits e ∧ h'.Says v e i.2) es items := by
  induction es generalizing h items with
  | nil =>
    cases hitems
    exact Yields.pure ⟨⟨hs, .refl _ _, rfl⟩, .nil⟩
  | cons e es ih =>
    obtain ⟨i, items, ⟨-, hc, hy⟩, hrest, rfl⟩ := List.forall₂_cons_left_iff.1 hitems
    rw [List.forall_mem_cons] at hes
    obtain ⟨hsep, hseparate⟩ := List.pairwise_cons.1 hseparate
    refine Yields.bind (store_yields hs ht hl hes.1 hc hy) fun _ h₁ hdone => ?_
    obtain ⟨hfilled, hsays⟩ := hdone
    have hr := hfilled.rewrites
    have ht₁ := hr.typeOf_iff.2 ht
    have hl₁ : h₁.registry.layouts.find? t = some l := by
      rw [hr.registry]
      exact hl
    have hrest₁ : List.Forall₂ (fun e i => i.1 ≠ v ∧ i.2.Suits e ∧ h₁.Offers e.type i.1 i.2) es items :=
      hrest.imp fun g j hj => ⟨hj.1, hj.2.1, hj.2.2.keeps hs hr.keeps (fun _ hin => hj.1 hin.1)
        (by rw [hfilled.symbols]; exact .refl _)⟩
    refine (ih hfilled.sound ht₁ hl₁ hes.2 hseparate hrest₁).mono fun _ h₂ hdone => ?_
    obtain ⟨hfilled', hall⟩ := hdone
    refine ⟨hfilled.cons hfilled', .cons ⟨hc, ?_⟩ hall⟩
    -- The fields that were stored afterwards lie elsewhere.
    have hn := hfilled.sound.size_record ht₁ hl₁ hes.1
    have hend := hs.registry.layouts.end_le hl hes.1
    refine hsays.keeps hc hn hend hfilled'.rewrites.keeps (fun j hlo hhi hin => ?_) ?_
    · obtain ⟨-, g, hg, hj⟩ := hin
      have hsep := hsep g hg
      rw [Layout.Separate] at hsep
      omega
    · rw [hfilled'.symbols]
      exact .refl _

/-! ## New objects -/

variable {fields : List (Symbol × TypeRef)} {items : List (Value × Content)}

theorem expectFields_eq_ok (hd : h.types.descriptor t = .ok d) (hkind : d.kind = .struct ∨ d.kind = .tuple) :
    expectFields h t = .ok ⟨⟩ := by
  refine bind_eq_ok.2 ⟨d, hd, ?_⟩
  rcases hkind with hkind | hkind <;> rw [hkind] <;> rfl

theorem offers_placed {es : List FieldLayout} (hplaced : List.Forall₂ (fun p e => (simpleSlot p).Placed e) fields es)
    (hitems : List.Forall₂ (fun p i => i.1 ≠ v ∧ h.Offers p.2 i.1 i.2) fields items) :
    List.Forall₂ (fun e i => i.1 ≠ v ∧ i.2.Suits e ∧ h.Offers e.type i.1 i.2) es items := by
  induction hplaced generalizing items with
  | nil =>
    cases hitems
    exact .nil
  | @cons p e fields es he _ ih =>
    obtain ⟨i, items, ⟨hne, hi⟩, hrest, rfl⟩ := List.forall₂_cons_left_iff.1 hitems
    refine .cons ⟨hne, hi.isOf.suits he, ?_⟩ (ih hrest)
    rw [he.type_eq, simpleSlot_type]
    exact hi

section New

variable (ho : h.Orderly) (hd : h.types.descriptor t = .ok d) (hkind : d.kind = .struct)
  (hfields : structFields d = .ok fields) (hsimple : SimpleFields h.types fields)
  (ha : h.Affords (.object (simpleLayout d.isMutable fields).size))

include ho hd hkind hfields hsimple ha

/-- A struct of scalars and references is made from a value for each field. -/
theorem new_makes (hitems : List.Forall₂ (fun p i => h.Offers p.2 i.1 i.2) fields items) :
    Makes (.object (simpleLayout d.isMutable fields).size) (new t (items.map Prod.fst)) h fun v h' =>
      ¬h.Live v ∧ h'.RecordOf v t (items.map Prod.snd) := by
  have hl := laidOut_struct ho.sound.registry.types ho.types hd hkind hfields hsimple
  have hpos : ∀ s ∈ fields.map simpleSlot, 0 < s.align :=
    List.forall_mem_map.2 fun p _ => simpleSlot_align_pos p
  have hplaced := placed_simpleLayout d.isMutable fields
  have hcount : (items.map Prod.fst).length = (simpleLayout d.isMutable fields).fields.length := by
    rw [List.length_map, ← hitems.length_eq, hplaced.length_eq]
  unfold new
  refine Yields.look_bind (expectFields_eq_ok hd (.inl hkind)) ?_
  refine Makes.bind_learns ho.sound ha (layout_yields ho hl) fun _ h₁ hlearns ha₁ hdone => ?_
  obtain ⟨rfl, hl₁⟩ := hdone
  have hm₁ := Made.learns ho.sound hlearns
  have hsize := (Yields.of_ok (runOn_sizeOf hm₁.sound.registry ⟨_, hl₁, rfl⟩) ⟨.refl h₁, rfl⟩ :
    Yields (sizeOf t) h₁ fun m h' => h₁.Learns h' ∧ m = (simpleLayout d.isMutable fields).size)
  rw [if_neg (not_not_intro hcount)]
  refine Yields.bind (allocate_fixed_makes (hm₁.orderly ho) (hlearns.extends.descriptor hd) (.inl hkind) hsize ha₁)
    fun v h₂ hdone => ?_
  obtain ⟨hm₂, hv⟩ := hdone
  have hm : Made (.object (simpleLayout d.isMutable fields).size) h h₂ := hm₁.trans hm₂
  have hfresh : ¬h.Live v := fun hlive => hv.fresh (hlearns.extends.live hlive)
  have hl₂ := hm₂.keeps.registry.layouts hl₁
  have hstored : List.Forall₂ (fun e i => i.1 ≠ v ∧ i.2.Suits e ∧ h₂.Offers e.type i.1 i.2)
      (simpleLayout d.isMutable fields).fields items := by
    refine offers_placed hplaced (hitems.imp fun p i hi => ⟨?_, hi.made ho.sound hm⟩)
    rintro rfl
    exact hfresh hi.live
  refine Yields.bind (storeAll_yields hm₂.sound hv.type hl₂ (fun _ => id)
    ((pairwise_placeFrom hpos).imp fun h => .inl h) hstored) fun _ h₃ hdone => Yields.pure ?_
  obtain ⟨hfilled, hall⟩ := hdone
  have hr := hfilled.rewrites
  have hfresh₁ : ∀ w j, (w = v ∧ ∃ e ∈ (simpleLayout d.isMutable fields).fields,
      e.offset ≤ j ∧ j < e.offset + e.size) → ¬h₁.Live w := by
    rintro w _ ⟨rfl, -⟩
    exact hv.fresh
  refine ⟨hm₂.rewrites hr hfilled.sound hfresh₁ hfilled.symbols, hfresh, hr.typeOf_iff.2 hv.type, _, ?_,
    List.forall₂_map_right_iff.2 hall⟩
  rw [hr.registry]
  exact hl₂

/-- A struct of references is made without any of them. -/
theorem newUninit_makes (hrefs : ∀ p ∈ fields, ScalarKind.ofType? p.2 = none) :
    Makes (.object (simpleLayout d.isMutable fields).size) (newUninit t) h fun v h' =>
      ¬h.Live v ∧ h'.RecordOf v t (fields.map fun _ => .ref none) := by
  have hl := laidOut_struct ho.sound.registry.types ho.types hd hkind hfields hsimple
  unfold newUninit
  refine Yields.look_bind (expectFields_eq_ok hd (.inl hkind)) ?_
  refine (allocate_fixed_makes ho hd (.inl hkind) (sizeOf_yields ho hl) ha).mono fun v h' hm hv => ?_
  have hd' := hm.keeps.descriptor hd
  -- The layout is the one that the size was asked of.
  obtain ⟨l, hl'⟩ := hm.sound.exists_layout hv.type hd' (by rw [hkind]; rfl)
  have hreference := reference_extends hm.keeps.registry.types hl.reference
  have hlaid := hm.sound.registry.layouts.reference_eq_ok (hm.orderly ho).types hl'
  cases hreference.symm.trans hlaid
  refine ⟨hv.fresh, hv.type, _, hl', List.forall₂_map_right_iff.2 ?_⟩
  refine ((List.forall₂_and_left _ _).2 ⟨fun _ hp => hp, placed_simpleLayout d.isMutable fields⟩).flip.imp
    fun e p hp => ⟨Content.IsOf.suits (c := .ref none) (hrefs p hp.1) hp.2, slot_eq_none_of_zero ?_⟩
  exact word_eq_zero fun j _ _ => hv.zero hd' fun hlength => by rw [hkind] at hlength; cases hlength

end New

end Record

/-! ## Reading -/

namespace Heap.RecordOf

theorem runOn_readScalar (hr : h.RecordOf v t cs) (hs : h.Sound) (hc : cs[i]? = some (.scalar k x)) :
    (Record.readScalar k v i).runOn h = (.ok x, h) := by
  obtain ⟨l, e, hl, hfield, ⟨htype, hsize, hin⟩, hbits⟩ := hr.exists_field hc
  have hbits : k.decode h.symbols (h.memory.window (v.offset + e.offset) k.size) = .ok x := hbits
  rw [Record.runOn_readScalar hs hr.type hl, hfield]
  show (Record.datumAt h v e >>= Datum.read k h, h) = _
  rw [Record.datumAt_inline hs hr.type hl (Record.mem_of_field hfield) hin, hsize]
  show (if e.type = k.type then _ else _, h) = _
  rw [if_pos htype, hbits]

theorem runOn_read_ref (hr : h.RecordOf v t cs) (hs : h.Sound) (hc : cs[i]? = some (.ref (some y))) :
    (Record.read v i).runOn h = (.ok (.ref y), h) := by
  obtain ⟨l, e, hl, hfield, ⟨-, hout⟩, hslot⟩ := hr.exists_field hc
  have hslot : h.slot v e.offset = some y := hslot
  rw [Record.runOn_read hs hr.type hl, hfield]
  show (Record.datumAt h v e, h) = _
  rw [Record.datumAt_outside hs hr.type hl (Record.mem_of_field hfield) hout, hslot]

theorem runOn_readRef (hr : h.RecordOf v t cs) (hs : h.Sound) (hc : cs[i]? = some (.ref (some y))) :
    (Record.readRef v i).runOn h = (.ok y, h) :=
  runOn_bind_ok (hr.runOn_read_ref hs hc)

theorem runOn_isDefined {x : Option Value} (hr : h.RecordOf v t cs) (hs : h.Sound) (hc : cs[i]? = some (.ref x)) :
    (Record.isDefined v i).runOn h = (.ok x.isSome, h) := by
  obtain ⟨l, e, hl, hfield, ⟨hsize, hout⟩, hslot⟩ := hr.exists_field hc
  have hslot : h.slot v e.offset = x := hslot
  have he := Record.mem_of_field hfield
  have hend := hs.registry.layouts.end_le hl he
  have htop := hs.end_le_top (hs.size_record hr.type hl he)
  rw [hsize, refSize] at hend
  have hlayout := Record.runOn_fieldLayout hs hr.type hl i
  rw [hfield] at hlayout
  rw [Record.isDefined, runOn_bind_ok hlayout, if_neg (ne_true_of_eq_false hout),
    runOn_bind_ok (Record.runOn_place hs hr.type hl he)]
  refine (runOn_bind_ok (a := x) ?_).trans (runOn_pure _ _)
  rw [runOn_look, readRef_eq (by omega), hslot]

end Heap.RecordOf

end TypedHeap
