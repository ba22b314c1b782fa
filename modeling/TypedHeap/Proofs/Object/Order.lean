import TypedHeap.Proofs.Heap.Modules
import TypedHeap.Proofs.Heap.Order
import TypedHeap.Proofs.Object.Record
import TypedHeap.Proofs.Object.SimpleVector

/-!
# Operations on objects keep a heap in order

* `Box.new_behaves`, `Text.ofBytes_behaves`, …: objects that hold bytes.
* `SimpleVector.Builder.set_behaves`, …: simple vectors.
* `Record.store_behaves`, `Record.new_behaves`, …: objects with fields.
* `ModuleObject.new_behaves`, `path_behaves`, …: modules.
-/

namespace TypedHeap

open TypedHeap.Action (Meets Fails runOn_bind_ok runOn_bind_error runOn_look)
open Heap
open Error (Innocent IsAboutTypes IsAboutValue)

variable {α : Type} {B : Value → Prop} {h h' : Heap} {v x m : Value} {t : TypeRef} {l : Layout} {f : FieldLayout}
  {i n : Nat} {bs : List UInt8} {k : ScalarKind}

/-- Permission to touch anything. -/
theorem Heap.InOrder.ready (ho : InOrder B h) : Ready (fun _ _ => True) h := ⟨ho.sound, fun _ _ => trivial⟩

/-! ## Scalars -/

namespace Heap

theorem intern_fails (s : Symbol) (table : SymbolTable) : Fails (SymbolTable.intern s) table (Innocent B) := by
  refine Fails.get_bind ?_
  split
  · exact .pure
  · exact Fails.ite (fun _ => Fails.change_bind .pure) fun _ => .throw trivial

theorem intern_behaves (ho : InOrder B h) (s : Symbol) : Behaves B (onSymbols (SymbolTable.intern s)) h :=
  ⟨Fails.focus (intern_fails s h.symbols), ho.path (S := fun _ _ => True) (.step (.symbol s)) rfl⟩

theorem encode_behaves (ho : InOrder B h) (k : ScalarKind) (x : k.Carrier) : Behaves B (encode k x) h := by
  have hword : Fails (k.toWord x) h.symbols (Innocent B) := by
    cases k
    case symbol => exact intern_fails x h.symbols
    all_goals exact .pure
  refine ⟨Fails.focus (Fails.bind_ran hword fun _ _ _ => .pure), ho.path (S := fun _ _ => True) ?_ rfl⟩
  exact path_encode k x h

theorem storeScalar_behaves {off : Nat} {x : k.Carrier} (ho : InOrder B h)
    (hwrite : ∀ bs table table', (k.encode x).runOn table' = (.ok bs, table) → bs.length = k.size →
      InOrder B { h with symbols := table } → Behaves B (writeBytes off bs) { h with symbols := table }) :
    Behaves B (storeScalar off k x) h := by
  have hmeets : Meets (Path fun _ _ => True) (encode k x) h _ := encode_meets k x
  refine Behaves.bind (encode_behaves ho k x) hmeets fun bs h' _ hbs ho' => ?_
  obtain ⟨⟨table, hrun⟩, hlen, heq⟩ := hbs
  rw [heq] at ho' ⊢
  exact hwrite bs h'.symbols table hrun hlen ho'

/-- Scalars are no arrays. -/
theorem Sound.scalar_kind (hs : h.Sound) (k : ScalarKind) :
    ∃ d, h.types.descriptor k.type = .ok d ∧ d.kind ≠ .array := by
  obtain ⟨d, hd, _, _, hkind, -⟩ := builtin_scalar k
  exact ⟨d, hs.builtin hd, by rw [hkind]; nofun⟩

/-- What is bits is no array. -/
theorem Sound.bits_kind (hs : h.Sound) (hl : h.registry.layouts.find? t = some l) (hbits : l.isBits = true) :
    ∃ d, h.types.descriptor t = .ok d ∧ d.kind ≠ .array := by
  obtain ⟨d, hd, hdesc⟩ := hs.registry.layouts.describes hl
  exact ⟨d, hd, (kind_of_isBits hdesc hbits).2⟩

end Heap

namespace Box

theorem new_behaves (ho : InOrder B h) (k : ScalarKind) (x : k.Carrier) : Behaves B (new k x) h := by
  obtain ⟨d, hd, hkind⟩ := ho.sound.scalar_kind k
  unfold new
  refine Behaves.bind (allocate_behaves ho hd hkind 0) (allocate_meets ho.ready k.type 0)
    fun v h₁ _ hv ho₁ => ?_
  refine Behaves.bind_ran (storeScalar_behaves ho₁ fun bs table table' hrun hlen ho₂ => ?_) fun _ _ _ => .pure
  have ht : ({ h₁ with symbols := table } : Heap).typeOf v = .ok k.type := hv.type
  obtain ⟨l, hl, hbits, hsize⟩ := ho₂.sound.scalar_layout ht
  have hlen := hlen.trans hsize.symm
  have hend := ho₂.sound.end_le_top (ho₂.sound.size_bits ht hl hbits)
  exact writeBytes_behaves (k := 0) (S := fun _ _ => True) ho₂ (by omega)
    (.bits ht hl hbits hlen (.scalar rfl hrun) fun _ => trivial)

theorem newType_behaves (ho : InOrder B h) (t : TypeRef) : Behaves B (newType t) h :=
  Behaves.get_bind (Behaves.lift_bind ho (descriptor_innocent h.types t) fun _ _ => new_behaves ho .dataType t)

theorem ofParam_behaves (ho : InOrder B h) (p : TypeParam) : Behaves B (ofParam p) h := by
  cases p with
  | type t => exact newType_behaves ho t
  | int n => exact new_behaves ho .int64 n
  | symbol s => exact new_behaves ho .symbol s
  | bool b => exact new_behaves ho .bool b

theorem read_innocent (hs : h.Sound) (k : ScalarKind) (v : Value) : Raises (read k h v) (Innocent B) := by
  unfold read
  refine Raises.bind (hs.typeOf_innocent v) fun t ht => Raises.guard (fun _ => trivial) fun hsame => ?_
  rw [Decidable.not_not] at hsame
  subst hsame
  obtain ⟨l, hl, hbits, hsize⟩ := hs.scalar_layout ht
  have hend := hs.end_le_top (hs.size_bits ht hl hbits)
  exact Raises.bind (.of_eq_ok (bytes_eq (by omega))) fun bs _ => decode_innocent _ _ _

end Box

theorem Datum.read_innocent (hs : h.Sound) (k : ScalarKind) (d : Datum) :
    Raises (d.read k h) (Innocent B) := by
  cases d with
  | ref v => exact Box.read_innocent hs k v
  | bits t bs => exact Raises.ite (fun _ => decode_innocent _ _ _) fun _ => .error trivial

/-! ## Strings and buffers -/

section Lengths

variable (hs : h.Sound)
  (hsize : h.typeOf v = .ok t → ∃ n, h.size? v = some n ∧ refSize + h.word v 0 ≤ n)

include hs hsize

/-- A length that stands in front of the payload is inside it. -/
theorem Heap.lengthOf_innocent : Raises (h.lengthOf t v) (Innocent B) := by
  refine Raises.bind (hs.expectType_innocent v _) fun _ ht => .of_eq_ok (readWord_eq (k := 0) ?_)
  obtain ⟨n, hn, hle⟩ := hsize (expectType_eq_ok.1 ht)
  have hend := hs.end_le_top hn
  rw [refSize] at hle
  omega

/-- So is what it counts. -/
theorem Heap.data_innocent : Raises (do
    let len ← h.lengthOf t v
    h.bytes (v.offset + refSize) len) (Innocent B) := by
  refine Raises.bind (lengthOf_innocent hs hsize) fun len hlen => .of_eq_ok (bytes_eq ?_)
  obtain ⟨_, ht, hlen⟩ := bind_eq_ok.1 hlen
  obtain ⟨-, rfl⟩ := (readWord_eq_ok (k := 0)).1 hlen
  obtain ⟨n, hn, hle⟩ := hsize (expectType_eq_ok.1 ht)
  have hend := hs.end_le_top hn
  omega

end Lengths

namespace Text

theorem length_innocent (hs : h.Sound) (v : Value) : Raises (length h v) (Innocent B) :=
  lengthOf_innocent hs fun ht => ⟨_, hs.size_string ht, Nat.le_refl _⟩

theorem data_innocent (hs : h.Sound) (v : Value) : Raises (data h v) (Innocent B) :=
  Heap.data_innocent hs fun ht => ⟨_, hs.size_string ht, Nat.le_refl _⟩

theorem read_innocent (hs : h.Sound) (v : Value) : Raises (read h v) (Innocent B) := by
  refine Raises.bind (data_innocent hs v) fun bs _ => ?_
  split
  · exact .pure
  · exact .throw trivial

theorem ofBytes_behaves (ho : InOrder B h) (bs : List UInt8) : Behaves B (ofBytes bs) h := by
  unfold ofBytes
  refine Behaves.bind (allocate_behaves ho ho.sound.descriptor_string nofun bs.length)
    (allocate_meets ho.ready Builtin.string bs.length) fun v h₁ _ hv ho₁ => ?_
  have hlen : h₁.word v 0 = bs.length := hv.length ho₁.sound.descriptor_string rfl
  have hend := ho₁.sound.end_le_top (ho₁.sound.size_string hv.type)
  refine Behaves.bind_ran (writeBytes_behaves (S := fun _ _ => True) ho₁ (by omega) ?_) fun _ _ _ => .pure
  exact .text hv.type hlen.symm fun _ => trivial

end Text

namespace Buffer

theorem new_behaves (ho : InOrder B h) (length : Nat) : Behaves B (new length) h :=
  allocate_behaves ho ho.sound.descriptor_buffer nofun length

theorem length_innocent (hs : h.Sound) (v : Value) : Raises (length h v) (Innocent B) :=
  lengthOf_innocent hs fun ht => ⟨_, hs.size_buffer ht, Nat.le_refl _⟩

theorem data_innocent (hs : h.Sound) (v : Value) : Raises (data h v) (Innocent B) :=
  Heap.data_innocent hs fun ht => ⟨_, hs.size_buffer ht, Nat.le_refl _⟩

end Buffer

/-! ## Simple vectors -/

namespace SimpleVector

theorem build_behaves (ho : InOrder B h) (length : Nat) : Behaves B (build length) h :=
  Behaves.bind_ran (allocate_behaves ho ho.sound.descriptor_simpleVector nofun length) fun _ _ _ => .pure

theorem Builder.set_behaves {b : Builder} (ho : InOrder B h) (hb : b.Holds h) (i : Nat) (x : Value) :
    Behaves B (b.set i x) h := by
  unfold set
  refine Behaves.guard ho nofun fun hi => ?_
  have hi : i < h.word b.value 0 := by rw [hb.length]; omega
  obtain ⟨n, hn, hle⟩ := ho.sound.size_vector hb.type
  exact storeRef_behaves (S := fun _ _ => True) ho hn (by rw [refSize] at hle ⊢; omega)
    (.vectorSlot hb.type hi fun _ => trivial)

theorem Builder.truncate_behaves {b : Builder} (ho : InOrder B h) (hb : b.Holds h) (length : Nat) :
    Behaves B (b.truncate length) h := by
  rcases Nat.lt_or_ge b.length length with hlt | hle
  · exact .of_runOn (Builder.runOn_truncate_error hlt) (.error nofun) ho
  · obtain ⟨h', hrun, hpath, -, hobjects⟩ :=
      b.runOn_truncate (S := fun _ _ => True) ho.sound hb (fun _ => trivial) hle
    exact .of_runOn hrun .ok (ho.path hpath hobjects)

theorem Builder.fill_behaves {b : Builder} {xs : List Value} (ho : InOrder B h) (hb : b.Holds h) (i : Nat) :
    Behaves B (b.fill i xs) h := by
  induction xs generalizing h i with
  | nil => exact .pure ho
  | cons x xs ih =>
    have hset : Meets (Path fun _ _ => True) (b.set i x) h _ :=
      b.set_meets ho.sound hb (fun _ => trivial) i x
    exact Behaves.bind (b.set_behaves ho hb i x) hset fun _ h' _ hb' ho' => ih ho' hb' (i + 1)

theorem new_behaves (ho : InOrder B h) (items : List Value) : Behaves B (new items) h := by
  unfold new
  refine Behaves.bind (build_behaves ho _) (build_meets ho.ready _) fun b h₁ _ hb ho₁ => ?_
  exact Behaves.bind_ran (b.fill_behaves ho₁ hb.2.2 0) fun _ _ _ => .pure

theorem ofParams_behaves (ho : InOrder B h) (ps : Params) : Behaves B (ofParams ps) h := by
  unfold ofParams
  refine Behaves.bind_ran (Behaves.mapM ho fun p _ h ho => Box.ofParam_behaves ho p) fun items h₁ _ ho₁ => ?_
  exact new_behaves ho₁ items

theorem length_innocent (hs : h.Sound) (v : Value) : Raises (length h v) (Innocent B) :=
  lengthOf_innocent hs fun ht => by
    obtain ⟨n, hn, hle⟩ := hs.size_vector ht
    exact ⟨n, hn, by rw [refSize] at hle ⊢; omega⟩

theorem get_innocent (hs : h.Sound) (v : Value) (i : Nat) : Raises (get h v i) (Innocent B) := by
  unfold get
  refine Raises.bind (length_innocent hs v) fun n hn => Raises.guard (fun _ => nofun) fun hi => ?_
  obtain ⟨ht, rfl⟩ := (length_eq_ok hs).1 hn
  refine Raises.bind (.of_eq_ok (readRef_eq (slot_end_le hs ht (Nat.not_le.1 hi)))) fun x _ => ?_
  split
  · exact .pure
  · exact .throw trivial

end SimpleVector

/-! ## Objects with fields -/

namespace Record

theorem fieldLayout_behaves (ho : InOrder B h) (v : Value) (i : Nat) : Behaves B (fieldLayout v i) h := by
  refine .of_learns ho (fieldLayout_meets v i) ?_
  obtain ⟨t, l, e, -, -, -, hrun⟩ | ⟨e, h', hrun, rfl | ⟨n, rfl⟩⟩ := fieldLayout_cases ho.sound v i
  · exact .of_runOn hrun .ok
  · exact .of_runOn hrun (.error trivial)
  · exact .of_runOn hrun (.error nofun)

theorem read_behaves (ho : InOrder B h) (v : Value) (i : Nat) : Behaves B (read v i) h := by
  refine .of_learns ho (read_meets v i) ?_
  obtain ⟨d, hrun⟩ | ⟨e, h', hrun, rfl | ⟨n, rfl⟩ | ⟨what, rfl⟩⟩ := read_cases ho.sound v i
  · exact .of_runOn hrun .ok
  · exact .of_runOn hrun (.error trivial)
  · exact .of_runOn hrun (.error nofun)
  · exact .of_runOn hrun (.error trivial)

theorem fieldCount_behaves (ho : InOrder B h) (v : Value) : Behaves B (fieldCount v) h := by
  refine Behaves.look_bind ho (ho.sound.typeOf_innocent v) fun t _ => ?_
  exact Behaves.bind_ran (layout_behaves ho t) fun _ _ _ => .pure

/-- The reference in a field is read if there is one. -/
theorem IsField.readRef_eq (hf : IsField h v f) (hs : h.Sound) (hout : f.isInline = false) :
    h.readRef (v.offset + f.offset) = .ok (h.slot v f.offset) := by
  have hend := hf.end_le hs
  obtain ⟨t, l, ht, hl, hmem⟩ := hf
  rw [hs.registry.layouts.size_reference hl hmem hout, refSize] at hend
  exact Heap.readRef_eq hend

theorem refAt_innocent (hf : IsField h v f) (hs : h.Sound) (hout : f.isInline = false) :
    Raises (refAt h v f (v.offset + f.offset)) (Innocent B) := by
  unfold refAt
  refine Raises.bind (.of_eq_ok (hf.readRef_eq hs hout)) fun x _ => ?_
  split
  · exact .pure
  · exact .throw trivial

/-- Where a field lies is found without an error. -/
theorem IsField.place_bind {g : Nat → HeapM α} (ho : InOrder B h) (hf : IsField h v f)
    (hg : Behaves B (g (v.offset + f.offset)) h) : Behaves B ((liftM (Record.place v f) : HeapM Nat) >>= g) h := by
  refine Behaves.lift_bind ho (.of_eq_ok (hf.place_eq ho.sound)) fun start hstart => ?_
  cases (hf.place_eq ho.sound).symm.trans hstart
  exact hg

theorem isDefined_behaves (ho : InOrder B h) (v : Value) (i : Nat) : Behaves B (isDefined v i) h := by
  unfold isDefined
  refine Behaves.bind (fieldLayout_behaves ho v i) (fieldLayout_meets v i) fun f h₁ _ hf ho₁ => ?_
  refine Behaves.ite (fun _ => .pure ho₁) fun hout => ?_
  refine hf.place_bind ho₁ ?_
  exact Behaves.look_bind ho₁ (.of_eq_ok (hf.readRef_eq ho₁.sound (by simpa using hout))) fun _ _ => .pure ho₁

theorem readByName_behaves (ho : InOrder B h) (v : Value) (name : Symbol) : Behaves B (readByName v name) h := by
  unfold readByName
  refine Behaves.look_bind ho (ho.sound.typeOf_innocent v) fun t _ => ?_
  have hindex : Behaves B (onRegistry (Registry.fieldIndex t name)) h :=
    .of_types ho (onRegistry_meets (Registry.fieldIndex_meets t name)) (Fails.focus (Registry.fieldIndex_fails t name))
  exact Behaves.bind_ran hindex fun i h₁ _ ho₁ => read_behaves ho₁ v i

theorem readScalar_behaves (ho : InOrder B h) (k : ScalarKind) (v : Value) (i : Nat) :
    Behaves B (readScalar k v i) h :=
  Behaves.bind_ran (read_behaves ho v i) fun d _ _ ho => .look ho (Datum.read_innocent ho.sound k d)

theorem readRef_behaves (ho : InOrder B h) (v : Value) (i : Nat) : Behaves B (readRef v i) h := by
  unfold readRef
  refine Behaves.bind_ran (read_behaves ho v i) fun d _ _ ho => ?_
  split
  · exact .pure ho
  · exact .throw ho trivial

theorem readValue_behaves (ho : InOrder B h) (v : Value) (i : Nat) : Behaves B (readValue v i) h := by
  unfold readValue
  refine Behaves.bind (fieldLayout_behaves ho v i) (fieldLayout_meets v i) fun f h₁ _ hf ho₁ => ?_
  refine hf.place_bind ho₁ ?_
  refine Behaves.ite (fun hin => ?_) fun hout => .look ho₁ (refAt_innocent hf ho₁.sound (by simpa using hout))
  obtain ⟨t, l, ht, hl, hmem⟩ := hf
  obtain ⟨l', hl', hbits, hsize⟩ := ho₁.sound.registry.layouts.inline hl hmem hin
  obtain ⟨d, hd, hkind⟩ := ho₁.sound.bits_kind hl' hbits
  refine Behaves.bind (allocate_behaves ho₁ hd hkind 0) (allocate_meets ho₁.ready f.type 0)
    fun box h₂ hpath hbox ho₂ => ?_
  have he := (Path.keeps hpath ho₁.sound).toExtends
  have hf₂ : IsField h₂ v f := IsField.extends ⟨t, l, ht, hl, hmem⟩ he
  have hl'₂ := he.registry.layouts hl'
  have hend := ho₂.sound.end_le_top (ho₂.sound.size_bits hbox.type hl'₂ hbits)
  refine Behaves.bind_ran (copyBytes_behaves (k := 0) (S := fun _ _ => True) ho₂ (hf₂.end_le ho₂.sound) (by omega) ?_)
    fun _ _ _ => .pure
  exact .bits hbox.type hl'₂ hbits (by rw [Memory.length_window, hsize])
    (.field (he.typeOf ht) (he.registry.layouts hl) hmem hin rfl) fun _ => trivial

/-! ### Storing -/

theorem store_behaves (ho : InOrder B h) (hf : IsField h v f) (x : Value)
    (houter : h.typeOf v = .ok Builtin.moduleType → f.isInline = false → x ≠ v →
      ¬Relation.ReflTransGen h.Inside x v) : Behaves B (store v f x) h := by
  have hs := ho.sound
  have hend := hf.end_le hs
  obtain ⟨t, l, ht, hl, hmem⟩ := hf
  have hin_end := hs.registry.layouts.end_le hl hmem
  unfold store
  refine Behaves.look_bind ho (hs.typeOf_innocent x) fun s hx => ?_
  refine Behaves.look_bind ho ((h.types.isa_fails s f.type).mono fun _ he => he.innocent) fun fits hfits => ?_
  refine Behaves.ite (fun _ => Behaves.get_bind (.throw_bind ho trivial)) fun hyes => ?_
  have hisa : h.types.isa s f.type = .ok true := by
    rw [hfits]
    simpa using hyes
  refine IsField.place_bind ho ⟨t, l, ht, hl, hmem⟩ ?_
  refine Behaves.ite (fun hin => ?_) fun hout => ?_
  · obtain ⟨l', hl', hbits, hsize⟩ := hs.registry.layouts.inline hl hmem hin
    obtain rfl := ho.eq_of_isa hx hl' hisa
    have hsrc := hs.end_le_top (hs.size_bits hx hl' hbits)
    exact copyBytes_behaves (S := fun _ _ => True) ho (by omega) hend
      (.fieldBits ht hl hmem hin (Memory.length_window _ _ _) (.object hx hisa) fun _ => trivial)
  · have hout : f.isInline = false := by simpa using hout
    have hsize := hs.registry.layouts.size_reference hl hmem hout
    rw [hsize, refSize] at hin_end
    exact storeRef_behaves (S := fun _ _ => True) ho (hs.size_record ht hl hmem) hin_end
      (.fieldRef ht hl hmem hout hx hisa (fun hm => houter (by rw [ht, hm]) hout) fun _ => trivial)

theorem storeAll_behaves {pairs : List (FieldLayout × Value)} (ho : InOrder B h)
    (hfields : ∀ p ∈ pairs, IsField h v p.1) (hempty : ∀ w, ¬h.Inside w v) : Behaves B (storeAll v pairs) h := by
  induction pairs generalizing h with
  | nil => exact .pure ho
  | cons p pairs ih =>
    rw [List.forall_mem_cons] at hfields
    have houter := not_inside_of_empty (x := p.2) hempty
    have hs := ho.sound
    have hstore : Meets (Path fun _ _ => True) (store v p.1 p.2) h _ :=
      store_meets hs hfields.1 (fun _ => trivial) p.2 fun _ _ => houter
    refine Behaves.bind (store_behaves ho hfields.1 p.2 fun _ _ => houter) hstore fun _ h' hpath hr ho' => ?_
    refine ih ho' (fun q hq => (hfields.2 q hq).extends (Path.keeps hpath hs).toExtends) fun w hin => hempty w ?_
    exact hr.keeps.inside_of hs ho'.sound (hr.live_iff.1 hin.live) (fun _ => hin.2.symm) hin

theorem checkMutable_innocent (h : Heap) (t : TypeRef) (f : FieldLayout) :
    Raises (checkMutable h t f) (Innocent B) := by
  unfold checkMutable
  refine Raises.bind (Raises.bind (descriptor_innocent _ _) fun _ _ => .pure) fun b _ => ?_
  exact Raises.ite (fun _ => Raises.bind (render_innocent _ _) fun _ _ => .throw trivial) fun _ => .pure

end Record

/-! ## Modules -/

namespace ModuleObject

theorem name_behaves (ho : InOrder B h) (m : Value) : Behaves B (name m) h :=
  .of_learns ho (name_meets m) ((name_fails ho.sound m).mono fun _ he => he.innocent)

theorem parent_behaves (ho : InOrder B h) (m : Value) : Behaves B (parent m) h :=
  .of_learns ho (parent_meets m) ((parent_fails ho.sound m).mono fun _ he => he.innocent)

theorem checkAbove_behaves (ho : InOrder B h) (m target : Value) (steps : Nat) (cur : Value) :
    Behaves B (checkAbove m target steps cur) h := by
  induction steps generalizing h cur with
  | zero => exact .throw ho trivial
  | succ steps ih =>
    unfold checkAbove
    refine Behaves.ite (fun _ => ?_) fun _ => ?_
    · refine Behaves.bind_ran (name_behaves ho m) fun _ _ _ ho => ?_
      exact Behaves.bind_ran (name_behaves ho target) fun _ _ _ ho => .throw_bind ho trivial
    · refine Behaves.bind_ran (parent_behaves ho cur) fun next _ _ ho => ?_
      exact Behaves.ite (fun _ => .pure ho) fun _ => ih ho next

theorem checkParent_behaves (ho : InOrder B h) (m : Value) (i : Nat) (p : Value) :
    Behaves B (checkParent m i p) h := by
  unfold checkParent
  refine Behaves.ite (fun _ => ?_) fun _ => .pure ho
  refine Behaves.look_bind ho (ho.sound.typeOf_innocent p) fun t _ => ?_
  exact Behaves.ite (fun _ => Behaves.get_bind (checkAbove_behaves ho m p _ p)) fun _ => .pure ho

theorem namesAbove_behaves (ho : InOrder B h) (below : List Symbol) (steps : Nat) (cur : Value) :
    Behaves B (namesAbove below steps cur) h := by
  induction steps generalizing h below cur with
  | zero => exact .throw ho trivial
  | succ steps ih =>
    unfold namesAbove
    refine Behaves.bind_ran (parent_behaves ho cur) fun p _ _ ho => Behaves.ite (fun _ => .pure ho) fun _ => ?_
    exact Behaves.bind_ran (name_behaves ho p) fun s _ _ ho => ih ho (s :: below) p

theorem path_behaves (ho : InOrder B h) (m : Value) : Behaves B (path m) h := by
  unfold path
  refine Behaves.bind_ran (name_behaves ho m) fun s h₁ _ ho => Behaves.get_bind ?_
  exact Behaves.bind_ran (namesAbove_behaves ho [s] _ m) fun _ _ _ => .pure

end ModuleObject

/-! ## Changing fields and making objects -/

namespace Record

theorem write_behaves (ho : InOrder B h) (v : Value) (i : Nat) (x : Value) : Behaves B (write v i x) h := by
  unfold write
  refine Behaves.look_bind ho (ho.sound.typeOf_innocent v) fun t ht => ?_
  refine Behaves.bind (fieldLayout_behaves ho v i) (fieldLayout_meets v i).ran fun f h₁ hl hf ho₁ => ?_
  obtain ⟨hrun, hf⟩ := hf
  refine Behaves.look_bind ho₁ (checkMutable_innocent h₁ t f) fun _ _ => Behaves.ite (fun hm => ?_) fun hm => ?_
  · subst hm
    refine Behaves.bind (ModuleObject.checkParent_behaves ho₁ v i x) (ModuleObject.checkParent_meets v i x).ran
      fun _ h₂ hl₂ hasked ho₂ => store_behaves ho₂ (hf.extends hl₂.extends) x fun _ hout hne => ?_
    -- The check looked at the same heap.
    obtain rfl := eq_parentField ho.sound ht hrun hout
    have hasks := checkParent_asks ho₁.sound v x
    have hkept := hasks.kept
    have hanswer := hasks.answer ⟨⟩
    rw [hasked.1] at hkept hanswer
    rw [← show h₁ = h₂ from hkept]
    exact hanswer rfl hne
  · refine store_behaves ho₁ hf x fun hm' => ?_
    exact absurd (Except.ok.inj ((hl.typeOf ht).symm.trans hm')) hm

theorem writeScalar_behaves (ho : InOrder B h) (v : Value) (i : Nat) (k : ScalarKind) (x : k.Carrier) :
    Behaves B (writeScalar v i k x) h := by
  unfold writeScalar
  refine Behaves.look_bind ho (ho.sound.typeOf_innocent v) fun t ht => ?_
  refine Behaves.bind (fieldLayout_behaves ho v i) (fieldLayout_meets v i) fun f h₁ hl hf ho₁ => ?_
  refine Behaves.look_bind ho₁ (checkMutable_innocent h₁ t f) fun _ _ => ?_
  refine Behaves.ite (fun _ => Behaves.get_bind (.throw_bind ho₁ trivial)) fun hplain => ?_
  rw [not_or, Decidable.not_not] at hplain
  have hin : f.isInline = true := by simpa using hplain.1
  refine hf.place_bind ho₁ ?_
  refine storeScalar_behaves ho₁ fun bs table table' hrun hlen ho₂ => ?_
  have hs := ho₂.sound
  have hf' : IsField { h₁ with symbols := table } v f := hf
  have hend := hf'.end_le hs
  obtain ⟨s, l, hts, hl, hmem⟩ := hf'
  obtain ⟨l', hl', hbits, hsize⟩ := hs.registry.layouts.inline hl hmem hin
  rw [hplain.2] at hl'
  have hsize' := (hs.scalar_size hl').2
  have hfit : bs.length = f.size := by omega
  exact writeBytes_behaves (S := fun _ _ => True) ho₂ (by rw [hfit]; exact hend)
    (.fieldBits hts hl hmem hin hfit (.scalar hplain.2.symm hrun) fun _ => trivial)

theorem expectFields_innocent (h : Heap) (t : TypeRef) : Raises (expectFields h t) (Innocent B) := by
  unfold expectFields
  refine Raises.bind (descriptor_innocent _ _) fun d _ => ?_
  split
  · exact .pure
  · exact .pure
  · exact Raises.bind (render_innocent _ _) fun _ _ => .throw trivial

/-- What has fields is no array. -/
theorem kind_of_expectFields (hok : expectFields h t = .ok ⟨⟩) :
    ∃ d, h.types.descriptor t = .ok d ∧ d.kind ≠ .array := by
  unfold expectFields at hok
  obtain ⟨d, hd, hok⟩ := bind_eq_ok.1 hok
  refine ⟨d, hd, fun hkind => ?_⟩
  rw [hkind] at hok
  obtain ⟨_, -, hok⟩ := bind_eq_ok.1 hok
  cases hok

theorem newUninit_behaves (ho : InOrder B h) (t : TypeRef) : Behaves B (newUninit t) h := by
  refine Behaves.look_bind ho (expectFields_innocent h t) fun _ hok => ?_
  obtain ⟨d, hd, hkind⟩ := kind_of_expectFields hok
  exact allocate_behaves ho hd hkind 0

theorem new_behaves (ho : InOrder B h) (t : TypeRef) (args : List Value) : Behaves B (new t args) h := by
  unfold new
  refine Behaves.look_bind ho (expectFields_innocent h t) fun _ hok => ?_
  obtain ⟨d, hd, hkind⟩ := kind_of_expectFields hok
  refine Behaves.bind (layout_behaves ho t) (layout_meets t) fun l h₁ hl₁ hl ho₁ => Behaves.ite (fun _ => ?_) fun _ => ?_
  · exact Behaves.get_bind (Behaves.lift_bind ho₁ (render_innocent _ _) fun _ _ => .throw_bind ho₁ trivial)
  refine Behaves.bind (allocate_behaves ho₁ (hl₁.extends.descriptor hd) hkind 0) (allocate_meets ho₁.ready t 0)
    fun v h₂ hpath hv ho₂ => ?_
  have hfields := isField_of_zip hv.type ((Path.keeps hpath ho₁.sound).registry.layouts hl) args
  exact Behaves.bind_ran (storeAll_behaves ho₂ hfields (not_inside_new hv ho₁.sound ho₂.sound)) fun _ _ _ => .pure

end Record

theorem ModuleObject.new_behaves (ho : InOrder B h) (name : Symbol) (parent : Option Value) :
    Behaves B (ModuleObject.new name parent) h := by
  have hmake : Behaves B (do
      let m ← Record.newUninit Builtin.moduleType
      Record.writeScalar m nameField .symbol name
      Record.write m parentField (parent.getD m)
      return m : HeapM Value) h := by
    refine Behaves.bind_ran (Record.newUninit_behaves ho _) fun m _ _ ho => ?_
    refine Behaves.bind_ran (Record.writeScalar_behaves ho m _ _ _) fun _ _ _ ho => ?_
    exact Behaves.bind_ran (Record.write_behaves ho m _ _) fun _ _ _ => .pure
  unfold ModuleObject.new
  cases parent with
  | some p => exact Behaves.look_bind ho (ho.sound.expectType_innocent p _) fun _ _ => hmake
  | none => exact Behaves.pure_bind hmake

end TypedHeap
