import TypedHeap.Proofs.Heap.Blind
import TypedHeap.Proofs.Object.Order

/-!
# Operations on objects do not see the collector's state

What is read of an object lies in its payload, where no flags are. A reference is stored in one object and names
another one, so the barrier lets it pass.

* `Box.new_blind`, `Text.ofBytes_blind`, …: objects that hold bytes.
* `SimpleVector.Builder.set_blind`, `new_blind`: simple vectors whose items are objects.
* `Record.read_blind`, `store_blind`, `new_blind`, …: objects with fields.
* `ModuleObject.new_blind`, `path_blind`, …: modules.
* `Box.read_eq`, `Text.data_eq`, …: questions.
-/

namespace TypedHeap

open TypedHeap.Action (Meets)
open Heap

variable {α : Type} {B : Value → Prop} {h k : Heap} {v x m : Value} {t : TypeRef} {f : FieldLayout} {i n : Nat}

/-! ## Scalars -/

theorem Heap.Alike.scalarMismatch_eq (hk : Alike h k) (kind : ScalarKind) (t : TypeRef) :
    k.scalarMismatch kind t = h.scalarMismatch kind t := by
  unfold scalarMismatch
  rw [hk.types_eq]

namespace Box

theorem new_blind (kind : ScalarKind) (x : kind.Carrier) : Blind (new kind x) h := by
  refine Blind.bind_all (allocate_blind kind.type 0) fun v h₁ => ?_
  exact Blind.bind_all (storeScalar_blind v.offset kind x) fun _ _ => .pure

theorem newType_blind (t : TypeRef) : Blind (newType t) h :=
  Blind.get_bind (fun _ hk => by rw [hk.types_eq]) (Blind.lift_bind fun _ _ => new_blind .dataType t)

theorem ofParam_blind (p : TypeParam) : Blind (ofParam p) h := by
  cases p with
  | type t => exact newType_blind t
  | int n => exact new_blind .int64 n
  | symbol s => exact new_blind .symbol s
  | bool b => exact new_blind .bool b

theorem read_eq (hk : Alike h k) (hs : h.Sound) (kind : ScalarKind) (v : Value) :
    read kind k v = read kind h v := by
  unfold read
  rw [hk.typeOf_eq, hk.symbols]
  refine bind_congr_ok fun t ht => ?_
  rw [hk.scalarMismatch_eq]
  split
  · rfl
  · rename_i hsame
    rw [Decidable.not_not] at hsame
    subst hsame
    obtain ⟨l, hl, hbits, hsize⟩ := hs.scalar_layout ht
    have hbytes : k.bytes v.offset kind.size = h.bytes v.offset kind.size :=
      hk.bytes_eq (j := 0) (hs.size_bits ht hl hbits) (by omega)
    rw [hbytes]

end Box

theorem Datum.read_eq (hk : Alike h k) (hs : h.Sound) (kind : ScalarKind) (d : Datum) :
    d.read kind k = d.read kind h := by
  cases d with
  | ref v => exact Box.read_eq hk hs kind v
  | bits t bs => simp only [read, hk.scalarMismatch_eq, hk.symbols]

/-! ## Strings and buffers -/

section Lengths

variable (hk : Alike h k) (hs : h.Sound)
  (hsize : h.typeOf v = .ok t → ∃ n, h.size? v = some n ∧ refSize + h.word v 0 ≤ n)

include hk hsize

theorem Heap.lengthOf_eq : k.lengthOf t v = h.lengthOf t v := by
  unfold lengthOf
  rw [hk.expectType_eq]
  refine bind_congr_ok fun _ ht => ?_
  obtain ⟨n, hn, hle⟩ := hsize (expectType_eq_ok.1 ht)
  exact hk.readWord_eq (j := 0) hn (by rw [refSize] at hle; omega)

theorem Heap.data_eq : (do
    let len ← k.lengthOf t v
    k.bytes (v.offset + refSize) len) = (do
    let len ← h.lengthOf t v
    h.bytes (v.offset + refSize) len) := by
  rw [lengthOf_eq hk hsize]
  refine bind_congr_ok fun len hlen => ?_
  obtain ⟨_, ht, hlen⟩ := bind_eq_ok.1 hlen
  obtain ⟨-, rfl⟩ := (readWord_eq_ok (k := 0)).1 hlen
  obtain ⟨n, hn, hle⟩ := hsize (expectType_eq_ok.1 ht)
  exact hk.bytes_eq hn hle

end Lengths

namespace Text

theorem ofBytes_blind (bs : List UInt8) : Blind (ofBytes bs) h := by
  refine Blind.bind_all (allocate_blind Builtin.string bs.length) fun v h₁ => ?_
  exact Blind.bind_all (writeBytes_blind _ bs) fun _ _ => .pure

theorem length_eq (hk : Alike h k) (hs : h.Sound) (v : Value) : length k v = length h v :=
  lengthOf_eq hk fun ht => ⟨_, hs.size_string ht, Nat.le_refl _⟩

theorem data_eq (hk : Alike h k) (hs : h.Sound) (v : Value) : data k v = data h v :=
  Heap.data_eq hk fun ht => ⟨_, hs.size_string ht, Nat.le_refl _⟩

theorem read_eq (hk : Alike h k) (hs : h.Sound) (v : Value) : read k v = read h v := by
  rw [read, read, data_eq hk hs]

end Text

namespace Buffer

theorem length_eq (hk : Alike h k) (hs : h.Sound) (v : Value) : length k v = length h v :=
  lengthOf_eq hk fun ht => ⟨_, hs.size_buffer ht, Nat.le_refl _⟩

theorem data_eq (hk : Alike h k) (hs : h.Sound) (v : Value) : data k v = data h v :=
  Heap.data_eq hk fun ht => ⟨_, hs.size_buffer ht, Nat.le_refl _⟩

theorem start_eq (hk : Alike h k) (v : Value) : start k v = start h v := by
  rw [start, start, hk.expectType_eq]

end Buffer

/-! ## Simple vectors -/

namespace SimpleVector

theorem build_blind (length : Nat) : Blind (build length) h :=
  Blind.bind_all (allocate_blind Builtin.simpleVector length) fun _ _ => .pure

/-- What is stored has to be an object, or the barrier may say that it is none. -/
theorem Builder.set_blind {b : Builder} (hb : b.Holds h) (i : Nat) (hx : h.Live x) : Blind (b.set i x) h :=
  Blind.guard fun _ => storeRef_blind (live_of_typeOf hb.type) hx _

theorem clearSlots_blind (v : Value) (i n : Nat) : Blind (clearSlots v i n) h := by
  induction n generalizing h i with
  | zero => exact .pure
  | succ n ih => exact Blind.bind_all (writeRef_blind _ none) fun _ _ => ih (i + 1)

theorem Builder.truncate_blind (b : Builder) (length : Nat) : Blind (b.truncate length) h := by
  refine Blind.guard fun _ => Blind.bind_all (clearSlots_blind b.value length _) fun _ _ => ?_
  exact Blind.bind_all (writeWord_blind _ length) fun _ _ => .pure

theorem Builder.fill_blind {b : Builder} {xs : List Value} (hs : h.Sound) (hb : b.Holds h) (i : Nat)
    (hxs : ∀ x ∈ xs, h.Live x) : Blind (b.fill i xs) h := by
  induction xs generalizing h i with
  | nil => exact .pure
  | cons x xs ih =>
    rw [List.forall_mem_cons] at hxs
    have hset : Meets (Path fun _ _ => True) (b.set i x) h _ := b.set_meets hs hb (fun _ => trivial) i x
    refine Blind.bind (b.set_blind hb i hxs.1) hset fun _ h' hpath hb' => ?_
    exact ih (hpath.sound hs) hb' (i + 1) fun y hy => (hpath.keeps hs).live (hxs.2 y hy)

theorem new_blind {items : List Value} (hs : h.Sound) (hitems : ∀ x ∈ items, h.Live x) : Blind (new items) h := by
  have hr : Ready (fun _ _ => True) h := ⟨hs, fun _ _ => trivial⟩
  refine Blind.bind (build_blind _) (build_meets hr _) fun b h₁ hpath hb => ?_
  refine Blind.bind_all (b.fill_blind (hpath.sound hs) hb.2.2 0 fun x hx => ?_) fun _ _ => .pure
  exact (hpath.keeps hs).live (hitems x hx)

theorem ofParams_blind (ho : InOrder B h) (ps : Params) : Blind (ofParams ps) h := by
  have hitems : Blind (ps.mapM Box.ofParam) h :=
    Blind.mapM ho fun p _ _ ho => ⟨Box.ofParam_blind p, Box.ofParam_behaves ho p⟩
  refine Blind.bind hitems (items_meets ho.ready ps) fun items h₁ hpath hlive => ?_
  exact new_blind (hpath.sound ho.sound) hlive

theorem length_eq (hk : Alike h k) (hs : h.Sound) (v : Value) : length k v = length h v :=
  lengthOf_eq hk fun ht => by
    obtain ⟨n, hn, hle⟩ := hs.size_vector ht
    exact ⟨n, hn, by rw [refSize] at hle ⊢; omega⟩

theorem get_eq (hk : Alike h k) (hs : h.Sound) (v : Value) (i : Nat) : get k v i = get h v i := by
  unfold get
  rw [length_eq hk hs]
  refine bind_congr_ok fun len hlen => ?_
  split
  · rfl
  · rename_i hi
    obtain ⟨ht, rfl⟩ := (length_eq_ok hs).1 hlen
    obtain ⟨n, hn, hle⟩ := hs.size_vector ht
    rw [slot, hk.readRef_eq hn (by rw [refSize] at hle ⊢; omega)]

end SimpleVector

/-! ## Objects with fields -/

namespace Record

theorem fieldLayout_blind (v : Value) (i : Nat) : Blind (fieldLayout v i) h := by
  refine Blind.look_bind (fun _ hk => hk.typeOf_eq v) fun t _ => ?_
  exact Blind.bind_all (onRegistry_blind _) fun l _ => .look fun _ _ => rfl

theorem fieldCount_blind (v : Value) : Blind (fieldCount v) h := by
  refine Blind.look_bind (fun _ hk => hk.typeOf_eq v) fun t _ => ?_
  exact Blind.bind_all (onRegistry_blind _) fun l _ => .pure

/-- A field lies in the payload of its object. -/
theorem IsField.room (hf : IsField h v f) (hs : h.Sound) : ∃ n, h.size? v = some n ∧ f.offset + f.size ≤ n := by
  obtain ⟨t, l, ht, hl, hmem⟩ := hf
  exact ⟨l.size, hs.size_record ht hl hmem, hs.registry.layouts.end_le hl hmem⟩

theorem IsField.readRef_eq_of_alike (hf : IsField h v f) (hs : h.Sound) (hout : f.isInline = false)
    (hk : Alike h k) : k.readRef (v.offset + f.offset) = h.readRef (v.offset + f.offset) := by
  obtain ⟨n, hn, hroom⟩ := hf.room hs
  obtain ⟨t, l, ht, hl, hmem⟩ := hf
  rw [hs.registry.layouts.size_reference hl hmem hout, refSize] at hroom
  exact hk.readRef_eq hn hroom

theorem refAt_eq (hk : Alike h k) (hs : h.Sound) (hf : IsField h v f) (hout : f.isInline = false) :
    refAt k v f (v.offset + f.offset) = refAt h v f (v.offset + f.offset) := by
  have howner : ownerText k v = ownerText h v := by
    rw [ownerText, ownerText, hk.typeOf_eq, hk.types_eq]
  rw [refAt, refAt, hf.readRef_eq_of_alike hs hout hk, howner]

theorem datumAt_eq (hk : Alike h k) (hs : h.Sound) (hf : IsField h v f) : datumAt k v f = datumAt h v f := by
  unfold datumAt
  rw [hf.place_eq hs]
  refine bind_congr_ok fun start hstart => ?_
  cases hstart
  split
  · obtain ⟨n, hn, hroom⟩ := hf.room hs
    rw [hk.bytes_eq hn hroom]
  · rename_i hout
    rw [refAt_eq hk hs hf (by simpa using hout)]

theorem read_blind (hs : h.Sound) (v : Value) (i : Nat) : Blind (read v i) h := by
  refine Blind.bind (fieldLayout_blind v i) (fieldLayout_meets v i) fun f h₁ hl hf => ?_
  exact .look fun k hk => datumAt_eq hk (hs.learns hl) hf

theorem isDefined_blind (hs : h.Sound) (v : Value) (i : Nat) : Blind (isDefined v i) h := by
  refine Blind.bind (fieldLayout_blind v i) (fieldLayout_meets v i) fun f h₁ hl hf => ?_
  refine Blind.ite (fun _ => .pure) fun hout => Blind.lift_bind fun start hstart => ?_
  obtain ⟨-, rfl⟩ := Word.add_eq_ok.1 hstart
  exact Blind.look_bind (fun k hk => hf.readRef_eq_of_alike (hs.learns hl) (by simpa using hout) hk) fun _ _ => .pure

theorem readByName_blind (hs : h.Sound) (v : Value) (name : Symbol) : Blind (readByName v name) h := by
  refine Blind.look_bind (fun _ hk => hk.typeOf_eq v) fun t _ => ?_
  have hindex := onRegistry_meets (h := h) (Registry.fieldIndex_meets t name)
  exact Blind.bind (onRegistry_blind _) hindex fun i h₁ hl _ => read_blind (hs.learns hl) v i

theorem readScalar_blind (hs : h.Sound) (kind : ScalarKind) (v : Value) (i : Nat) :
    Blind (readScalar kind v i) h :=
  Blind.bind (read_blind hs v i) (read_meets v i) fun d _ hl _ =>
    .look fun _ hk => Datum.read_eq hk (hs.learns hl) kind d

theorem readRef_blind (hs : h.Sound) (v : Value) (i : Nat) : Blind (readRef v i) h := by
  refine Blind.bind_all (read_blind hs v i) fun d _ => ?_
  split
  · exact .pure
  · exact .throw

theorem readValue_blind (hs : h.Sound) (v : Value) (i : Nat) : Blind (readValue v i) h := by
  refine Blind.bind (fieldLayout_blind v i) (fieldLayout_meets v i) fun f h₁ hl hf => ?_
  have hs₁ := hs.learns hl
  have hr₁ : Ready (fun _ _ => True) h₁ := ⟨hs₁, fun _ _ => trivial⟩
  refine Blind.lift_bind fun start hstart => ?_
  obtain ⟨-, rfl⟩ := Word.add_eq_ok.1 hstart
  refine Blind.ite (fun _ => ?_) fun hout => .look fun k hk => refAt_eq hk hs₁ hf (by simpa using hout)
  obtain ⟨n, hn, hroom⟩ := hf.room hs₁
  refine Blind.bind (allocate_blind f.type 0) (allocate_meets hr₁ f.type 0) fun box h₂ hpath _ => ?_
  exact Blind.bind_all (copyBytes_blind ((hpath.keeps hs₁).size? hn) hroom box.offset) fun _ _ => .pure

/-! ### Storing -/

/-- Only objects of the type of the field are stored, so what is copied is in their payloads. -/
theorem store_blind (ho : InOrder B h) (hf : IsField h v f) (x : Value) : Blind (store v f x) h := by
  have hs := ho.sound
  have hmem := hf
  obtain ⟨t, l, ht, hl, hmem⟩ := hmem
  unfold store
  refine Blind.look_bind (fun _ hk => hk.typeOf_eq x) fun s hx => ?_
  refine Blind.look_bind (fun _ hk => by rw [hk.types_eq]) fun fits hfits => ?_
  refine Blind.ite (fun _ => Blind.get_bind (fun _ hk => by rw [hk.types_eq]) .throw_bind) fun hyes => ?_
  have hisa : h.types.isa s f.type = .ok true := by
    rw [hfits]
    simpa using hyes
  refine Blind.lift_bind fun start _ => ?_
  refine Blind.ite (fun hin => ?_) fun _ => storeRef_blind (live_of_typeOf ht) (live_of_typeOf hx) _
  obtain ⟨l', hl', hbits, hsize⟩ := hs.registry.layouts.inline hl hmem hin
  obtain rfl := ho.eq_of_isa hx hl' hisa
  exact copyBytes_blind (j := 0) (hs.size_bits hx hl' hbits) (by omega) _

theorem storeAll_blind {pairs : List (FieldLayout × Value)} (ho : InOrder B h)
    (hfields : ∀ p ∈ pairs, IsField h v p.1) (hempty : ∀ w, ¬h.Inside w v) : Blind (storeAll v pairs) h := by
  induction pairs generalizing h with
  | nil => exact .pure
  | cons p pairs ih =>
    rw [List.forall_mem_cons] at hfields
    have hs := ho.sound
    have houter := not_inside_of_empty (x := p.2) hempty
    have hstore : Meets (Path fun _ _ => True) (store v p.1 p.2) h _ :=
      store_meets hs hfields.1 (fun _ => trivial) p.2 fun _ _ => houter
    refine Blind.bind_known (store_blind ho hfields.1 p.2) (store_behaves ho hfields.1 p.2 fun _ _ => houter) hstore
      fun _ h' hpath hr ho' => ih ho' (fun q hq => (hfields.2 q hq).extends (hpath.keeps hs).toExtends) fun w hin => ?_
    exact hempty w (hr.keeps.inside_of hs ho'.sound (hr.live_iff.1 hin.live) (fun _ => hin.2.symm) hin)

theorem checkMutable_eq (hk : Alike h k) (t : TypeRef) (f : FieldLayout) : checkMutable k t f = checkMutable h t f := by
  rw [checkMutable, checkMutable, hk.registry, hk.types_eq]

theorem expectFields_eq (hk : Alike h k) (t : TypeRef) : expectFields k t = expectFields h t := by
  rw [expectFields, expectFields, hk.types_eq]

end Record

/-! ## Modules -/

namespace ModuleObject

theorem name_blind (hs : h.Sound) (m : Value) : Blind (name m) h :=
  Blind.look_bind (fun _ hk => hk.expectType_eq m _) fun _ _ => Record.readScalar_blind hs .symbol m nameField

theorem parent_blind (hs : h.Sound) (m : Value) : Blind (parent m) h := by
  refine Blind.look_bind (fun _ hk => hk.expectType_eq m _) fun _ _ => ?_
  refine Blind.bind_all (Record.read_blind hs m parentField) fun d _ => ?_
  split
  · exact .pure
  · exact .throw

theorem checkAbove_blind (hs : h.Sound) (m target : Value) (steps : Nat) (cur : Value) :
    Blind (checkAbove m target steps cur) h := by
  induction steps generalizing h cur with
  | zero => exact .throw
  | succ steps ih =>
    unfold checkAbove
    refine Blind.ite (fun _ => ?_) fun _ => ?_
    · refine Blind.bind (name_blind hs m) (name_meets m) fun _ h₁ hl _ => ?_
      exact Blind.bind_all (name_blind (hs.learns hl) target) fun _ _ => .throw_bind
    · refine Blind.bind (parent_blind hs cur) (parent_meets cur) fun next h₁ hl _ => ?_
      exact Blind.ite (fun _ => .pure) fun _ => ih (hs.learns hl) next

theorem checkParent_blind (hs : h.Sound) (m : Value) (i : Nat) (p : Value) : Blind (checkParent m i p) h := by
  refine Blind.ite (fun _ => ?_) fun _ => .pure
  refine Blind.look_bind (fun _ hk => hk.typeOf_eq p) fun t _ => Blind.ite (fun _ => ?_) fun _ => .pure
  exact Blind.get_bind (fun _ hk => by rw [hk.objects]) (checkAbove_blind hs m p _ p)

theorem namesAbove_blind (hs : h.Sound) (below : List Symbol) (steps : Nat) (cur : Value) :
    Blind (namesAbove below steps cur) h := by
  induction steps generalizing h below cur with
  | zero => exact .throw
  | succ steps ih =>
    unfold namesAbove
    refine Blind.bind (parent_blind hs cur) (parent_meets cur) fun p h₁ hl _ => Blind.ite (fun _ => .pure) fun _ => ?_
    refine Blind.bind (name_blind (hs.learns hl) p) (name_meets p) fun s h₂ hl₂ _ => ?_
    exact ih ((hs.learns hl).learns hl₂) (s :: below) p

theorem path_blind (hs : h.Sound) (m : Value) : Blind (path m) h := by
  refine Blind.bind (name_blind hs m) (name_meets m) fun s h₁ hl _ => ?_
  refine Blind.get_bind (fun _ hk => by rw [hk.objects]) ?_
  exact Blind.bind_all (namesAbove_blind (hs.learns hl) [s] _ m) fun _ _ => .pure

end ModuleObject

/-! ## Changing fields and making objects -/

namespace Record

theorem write_blind (ho : InOrder B h) (v : Value) (i : Nat) (x : Value) : Blind (write v i x) h := by
  unfold write
  refine Blind.look_bind (fun _ hk => hk.typeOf_eq v) fun t _ => ?_
  refine Blind.bind (fieldLayout_blind v i) (fieldLayout_meets v i) fun f h₁ hl hf => ?_
  have ho₁ := ho.learns hl
  refine Blind.look_bind (fun _ hk => checkMutable_eq hk t f) fun _ _ => Blind.ite (fun _ => ?_) fun _ => ?_
  · refine Blind.bind (ModuleObject.checkParent_blind ho₁.sound v i x) (ModuleObject.checkParent_meets v i x)
      fun _ h₂ hl₂ _ => store_blind (ho₁.learns hl₂) (hf.extends hl₂.extends) x
  · exact store_blind ho₁ hf x

theorem writeScalar_blind (v : Value) (i : Nat) (kind : ScalarKind) (x : kind.Carrier) :
    Blind (writeScalar v i kind x) h := by
  unfold writeScalar
  refine Blind.look_bind (fun _ hk => hk.typeOf_eq v) fun t _ => ?_
  refine Blind.bind_all (fieldLayout_blind v i) fun f h₁ => ?_
  refine Blind.look_bind (fun _ hk => checkMutable_eq hk t f) fun _ _ => ?_
  refine Blind.ite (fun _ => Blind.get_bind (fun _ hk => by rw [hk.types_eq]) .throw_bind) fun _ => ?_
  exact Blind.lift_bind fun start _ => storeScalar_blind start kind x

theorem newUninit_blind (t : TypeRef) : Blind (newUninit t) h :=
  Blind.look_bind (fun _ hk => expectFields_eq hk t) fun _ _ => allocate_blind t 0

theorem new_blind (ho : InOrder B h) (t : TypeRef) (args : List Value) : Blind (new t args) h := by
  unfold new
  refine Blind.look_bind (fun _ hk => expectFields_eq hk t) fun _ hok => ?_
  obtain ⟨d, hd, hkind⟩ := kind_of_expectFields hok
  refine Blind.bind (onRegistry_blind _) (layout_meets t) fun l h₁ hl₁ hl => Blind.ite (fun _ => ?_) fun _ => ?_
  · exact Blind.get_bind (fun _ hk => by rw [hk.types_eq]) (Blind.lift_bind fun _ _ => .throw_bind)
  have ho₁ := ho.learns hl₁
  refine Blind.bind_known (allocate_blind t 0) (allocate_behaves ho₁ (hl₁.extends.descriptor hd) hkind 0)
    (allocate_meets ho₁.ready t 0) fun v h₂ hpath hv ho₂ => ?_
  have hfields := isField_of_zip hv.type ((Path.keeps hpath ho₁.sound).registry.layouts hl) args
  exact Blind.bind_all (storeAll_blind ho₂ hfields (not_inside_new hv ho₁.sound ho₂.sound)) fun _ _ => .pure

end Record

theorem ModuleObject.new_blind (ho : InOrder B h) (name : Symbol) (parent : Option Value) :
    Blind (ModuleObject.new name parent) h := by
  have hmake : Blind (do
      let m ← Record.newUninit Builtin.moduleType
      Record.writeScalar m nameField .symbol name
      Record.write m parentField (parent.getD m)
      return m : HeapM Value) h := by
    refine Blind.bind_ordered (Record.newUninit_blind _) (Record.newUninit_behaves ho _) fun m _ ho => ?_
    refine Blind.bind_ordered (Record.writeScalar_blind m _ _ _) (Record.writeScalar_behaves ho m _ _ _) fun _ _ ho => ?_
    exact Blind.bind_all (Record.write_blind ho m _ _) fun _ _ => .pure
  unfold ModuleObject.new
  cases parent with
  | some p => exact Blind.look_bind (fun _ hk => hk.expectType_eq p _) fun _ _ => hmake
  | none => exact Blind.pure_bind hmake

end TypedHeap
