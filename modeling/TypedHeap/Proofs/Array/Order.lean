import TypedHeap.Proofs.Array.Shape
import TypedHeap.Proofs.Object.Order

/-!
# Operations on arrays keep a heap in order

An array whose buffer is there has its owner, its dimensions and its selectors too, and each slot in use
lies inside the buffer.

* `ArrayObject.elementStorage_fails`: what can be wrong with an element type.
* `Heap.build_behaves`: a new array, together with what is written to it.
* `ArrayObject.length_innocent`, `owner_innocent`, …: questions.
* `ArrayObject.get_behaves`, `set_behaves`, `resize_behaves`, …: operations.
-/

namespace TypedHeap

open TypedHeap.Action (Meets Fails runOn_bind_ok runOn_bind_error runOn_look)
open Heap
open Error (Innocent IsAboutLayouts IsAboutValue)

variable {α : Type} {B : Value → Prop} {h h' : Heap} {a v x : Value} {f : ArrayInfo} {t : TypeRef} {i n : Nat}
  {ds : List Nat}

/-! ## New arrays -/

/-- An array is made, and what follows gives it its words. No other object is made on the way. -/
theorem Heap.build_behaves {rest : Value → HeapM α} (ho : InOrder B h) (t : TypeRef) (extra : Nat)
    (hrest : ∀ v h₁, NewObject h h₁ v t extra → Path (fun _ _ => True) h h₁ → ∃ h₂ b,
      (rest v).runOn h₁ = (.ok b, h₂) ∧ Path (fun _ _ => True) h₁ h₂ ∧ h₂.objects = h₁.objects ∧
        ∃ f, h₂.IsArray v f) : Behaves B (allocate t extra >>= rest) h := by
  obtain ⟨v, h₁, hrun, hv⟩ | ⟨e, h₁, hrun, hl, he⟩ := allocate_cases (B := B) ho.sound t extra
  · have hp₁ := (allocate_meets ho.ready t extra).kept
    rw [hrun] at hp₁
    obtain ⟨h₂, b, hrun₂, hp₂, hobjects, f, hf⟩ := hrest v h₁ hv hp₁
    refine .of_runOn ((runOn_bind_ok hrun).trans hrun₂) .ok (ho.trail (Path.trail (hp₁.trans hp₂)) fun a ha hdead => ?_)
    obtain ⟨elem, rank, ht⟩ := ha.1
    obtain rfl := (hv.only a ((live_congr hobjects).1 ht.live)).resolve_left hdead
    exact absurd hf (ha.2 f)
  · exact .of_runOn (runOn_bind_error hrun) (.error he) (ho.learns hl)

namespace ArrayObject

theorem widest_fails (ts : List TypeRef) : Fails (widest ts) h IsAboutLayouts := by
  induction ts generalizing h with
  | nil => exact .pure
  | cons t ts ih =>
    unfold widest
    refine Fails.bind_ran (Fails.focus (Registry.isInline_fails t)) fun b _ _ => Fails.ite (fun _ => ?_) fun _ => .pure
    refine Fails.bind_ran (Fails.focus (Registry.sizeOf_fails t)) fun _ _ _ => ?_
    exact Fails.bind_ran ih fun _ _ _ => .pure

theorem unionSlot_fails (members : List TypeRef) : Fails (unionSlot members) h IsAboutLayouts := by
  unfold unionSlot
  refine Fails.bind_ran (widest_fails members) fun width _ _ => ?_
  split
  · exact Fails.ite (fun _ => .pure) fun _ => .pure
  · exact .pure

theorem wideStorage_fails (elem : TypeRef) : Fails (wideStorage elem) h IsAboutLayouts := by
  unfold wideStorage
  refine Fails.get_bind (Fails.lift_bind ((h.types.descriptor_fails elem).mono fun _ => .inl) fun d _ => ?_)
  refine Fails.ite (fun _ => ?_) fun _ => .pure
  refine Fails.bind_ran (unionSlot_fails d.memberTypes) fun slot _ _ => ?_
  split <;> exact .pure

/-- Only types can be wrong about the elements. -/
theorem elementStorage_fails (elem : TypeRef) : Fails (elementStorage elem) h IsAboutLayouts := by
  rw [elementStorage_eq]
  refine Fails.bind_ran (Fails.focus (Registry.isInline_fails elem)) fun b _ _ => ?_
  refine Fails.ite (fun _ => ?_) fun _ => wideStorage_fails elem
  refine Fails.bind_ran (Fails.focus (Registry.sizeOf_fails elem)) fun n _ _ => ?_
  exact Fails.ite (fun _ => .pure) fun _ => wideStorage_fails elem

theorem elementStorage_behaves (ho : InOrder B h) (elem : TypeRef) : Behaves B (elementStorage elem) h :=
  .of_types ho (elementStorage_meets elem) (elementStorage_fails elem)

theorem arrayType_behaves (ho : InOrder B h) (elem : TypeRef) (ndims : Nat) :
    Behaves B (onTypes (TypeTable.arrayType elem ndims)) h :=
  onTypes_behaves ho (TypeTable.arrayType_meets ho.sound.registry.types elem ndims)
    (TypeTable.apply_fails _ _)

theorem new_behaves (ho : InOrder B h) (elem : TypeRef) (hds : ∀ d ∈ ds, d < 0x10000000000000000) :
    Behaves B (new elem ds) h := by
  unfold new
  cases hcount : elementCount ds with
  | none => exact .throw ho trivial
  | some n =>
    have hn : n < 0x10000000000000000 := Nat.lt_of_le_of_lt (elementCount_eq_some hcount).2 (by decide)
    have hfamily := onTypes_meets (h := h) (TypeTable.arrayType_meets ho.sound.registry.types elem ds.length)
    refine Behaves.bind (arrayType_behaves ho elem ds.length) hfamily fun t h₁ _ ht ho₁ => ?_
    refine Behaves.bind (elementStorage_behaves ho₁ elem) (elementStorage_meets elem) fun p h₂ hl hstored ho₂ => ?_
    obtain ⟨storage, slotSize⟩ := p
    have ht := ht.stands.extends hl.extends.registry.types
    dsimp only
    cases hsize : bufferSize storage slotSize n with
    | none => exact .throw ho₂ trivial
    | some size =>
      refine Behaves.bind (Buffer.new_behaves ho₂ size) (Buffer.new_meets ho₂.ready size)
        fun buffer h₃ hp₃ hbuffer ho₃ => build_behaves ho₃ t ds.length fun a h₄ ha hp₄ => ?_
      let f : ArrayInfo :=
        { elem, flags := { ndims := ds.length, storage, isShared := false, slotSize }
          length := n, capacity := n, buffer }
      obtain ⟨hrun, step, hnew⟩ :=
        runOn_build (f := f) ho₂.ready hstored rfl rfl rfl hcount hn hds hsize ht hp₃ hbuffer hp₄ ha
      have hs₃ := ho₃.sound
      have htype := arrayType_of_new ha ((ht.extends (hp₃.keeps ho₂.sound).registry.types).extends
        ha.kept.registry.types)
      have hr : Writes (fun _ _ => True) h₄ (h₄.putArray a f ds) :=
        putArray_writes (hp₄.sound hs₃) htype fun _ => trivial
      exact ⟨_, a, runOn_bind_ok hrun, .step step, hr.objects, f, hnew.array⟩

theorem newVector_behaves (ho : InOrder B h) (elem : TypeRef) (n : Nat) : Behaves B (newVector elem n) h := by
  by_cases hn : n < 0x10000000000000000
  · exact new_behaves ho elem fun d hd => by
      rw [List.mem_singleton.1 hd]
      exact hn
  · unfold newVector new
    rw [elementCount_singleton hn]
    exact .throw ho trivial

/-! ## Questions -/

/-- A question about the fixed part of an array. -/
theorem ask_innocent {g : ArrayInfo → α} (ho : InOrder B h) (a : Value) :
    Raises (do return g (← info h a)) (Innocent B) :=
  Raises.bind (ho.info_innocent a) fun _ _ => .pure

theorem length_innocent (ho : InOrder B h) (a : Value) : Raises (length h a) (Innocent B) := ask_innocent ho a

theorem ndims_innocent (ho : InOrder B h) (a : Value) : Raises (ndims h a) (Innocent B) := ask_innocent ho a

theorem ndims_eq_ok (hs : h.Sound) (hn : ndims h a = .ok n) : ∃ f, h.IsArray a f ∧ f.flags.ndims = n := by
  obtain ⟨f, hf, hn⟩ := bind_eq_ok.1 hn
  exact ⟨f, hs.info_iff.1 hf, pure_eq_ok.1 hn⟩

/-- The words of the dimensions are there. -/
theorem readWord_dim (hs : h.Sound) (ha : h.IsArray a f) {k : Nat} (hk : k < f.flags.ndims) :
    h.readWord (a.offset + dimWord k) = .ok (h.word a (dimWord k)) := by
  have hend := hs.end_le_top (hs.size_array (hs.arrays ha).type)
  refine readWord_eq ?_
  simp only [ownerOffset, dimWord, refSize] at hend ⊢
  omega

theorem dim_innocent (ho : InOrder B h) (a : Value) (k : Nat) : Raises (dim h a k) (Innocent B) := by
  unfold dim
  refine Raises.bind (ndims_innocent ho a) fun n hn => Raises.guard (fun _ => nofun) fun hk => ?_
  obtain ⟨f, ha, rfl⟩ := ndims_eq_ok ho.sound hn
  exact .of_eq_ok (readWord_dim ho.sound ha (Nat.not_le.1 hk))

theorem dims_innocent (ho : InOrder B h) (a : Value) : Raises (dims h a) (Innocent B) := by
  unfold dims
  refine Raises.bind (ndims_innocent ho a) fun n hn => Raises.mapM fun k hk => ?_
  obtain ⟨f, ha, rfl⟩ := ndims_eq_ok ho.sound hn
  exact .of_eq_ok (readWord_dim ho.sound ha (List.mem_range.1 hk))

/-- An array has an owner. -/
theorem owner_innocent (ho : InOrder B h) (a : Value) : Raises (owner h a) (Innocent B) := by
  unfold owner
  refine Raises.bind (ho.info_innocent a) fun f hf => ?_
  have ha := isArray_of_info ho.sound.registry hf
  have hend := ho.sound.end_le_top (ho.sound.size_array (ho.sound.arrays ha).type)
  have hread : h.readRef (a.offset + ownerOffset f.flags.ndims) = .ok (some f.buffer) := by
    rw [readRef_eq hend, (ho.sound.arrays ha).owner]
  refine Raises.bind (.of_eq_ok hread) fun r hr => ?_
  cases hread.symm.trans hr
  exact .pure

theorem linearFrom_innocent (stride : Nat) (position : List (Nat × Nat)) :
    Raises (linearFrom stride position) (Innocent B) := by
  induction position generalizing stride with
  | nil => exact .ok
  | cons p rest ih =>
    unfold linearFrom
    exact Raises.guard (fun _ => nofun) fun _ => Raises.bind (ih _) fun _ _ => .pure

theorem linearIndex_innocent (ho : InOrder B h) (a : Value) (position : List Nat) :
    Raises (linearIndex h a position) (Innocent B) := by
  unfold linearIndex
  exact Raises.bind (dims_innocent ho a) fun ds _ => Raises.guard (fun _ => trivial) fun _ => linearFrom_innocent _ _

theorem data_innocent (ho : InOrder B h) (a : Value) : Raises (data h a) (Innocent B) :=
  Raises.bind (ho.info_innocent a) fun f _ => Raises.bind (ho.sound.start_innocent f.buffer) fun _ _ => .pure

theorem checkIndex_innocent (f : ArrayInfo) (i : Nat) : Raises (f.checkIndex i) (Innocent B) :=
  Raises.ite (fun _ => .ok) fun _ => .error nofun

/-! ## Elements -/

theorem get_behaves (ho : InOrder B h) (a : Value) (i : Nat) : Behaves B (get a i) h := by
  refine .of_learns ho (get_meets ho.sound a i) ?_
  cases hf : info h a with
  | error e =>
    have hinfo : (Action.look (info · a)).runOn h = (.error e, h) := by rw [runOn_look, hf]
    unfold get
    exact .of_runOn (runOn_bind_error hinfo) (.error (ho.info_innocent a e hf))
  | ok f =>
    have ha := ho.sound.info_iff.1 hf
    by_cases hi : i < f.length
    · obtain ⟨d, hd⟩ := exists_shows (ho.sound.arrays ha).body hi
      refine .of_runOn (runOn_get ho.sound ha hi hd) ?_
      cases d with
      | none => exact .error trivial
      | some d => exact .ok
    · exact .of_runOn (runOn_get_error ho.sound ha (Nat.not_lt.1 hi)) (.error nofun)

theorem getScalar_behaves (ho : InOrder B h) (k : ScalarKind) (a : Value) (i : Nat) :
    Behaves B (getScalar k a i) h :=
  Behaves.bind_ran (get_behaves ho a i) fun d _ _ ho => .look ho (Datum.read_innocent ho.sound k d)

theorem getValue_behaves (ho : InOrder B h) (a : Value) (i : Nat) : Behaves B (getValue a i) h := by
  unfold getValue
  refine Behaves.bind (get_behaves ho a i) (get_meets ho.sound a i) fun d h₁ _ hd ho₁ => ?_
  cases d with
  | ref x => exact .pure ho₁
  | bits t bytes =>
    obtain ⟨f, ha, hi, hbits⟩ := hd rfl
    refine Behaves.look_bind ho₁ (ho₁.info_innocent a) fun g hg => ?_
    cases ha.unique (isArray_of_info ho₁.sound.registry hg)
    refine Behaves.look_bind ho₁ (ho₁.sound.start_innocent f.buffer) fun start hstart => ?_
    obtain ⟨-, rfl⟩ := Buffer.start_eq_ok.1 hstart
    obtain ⟨l, hl, hisBits, hsize, -⟩ := hbits.layout (ho₁.sound.arrays ha).body
    obtain ⟨d, hd, hkind⟩ := ho₁.sound.bits_kind hl hisBits
    refine Behaves.bind (allocate_behaves ho₁ hd hkind 0) (allocate_meets ho₁.ready t 0) fun box h₂ _ hbox ho₂ => ?_
    have hbits := hbits.keeps ho₁.sound ha hi hbox.kept fun _ => id
    have ha := ho₁.sound.isArray_kept ha hbox.kept fun _ => id
    have hl := hbox.kept.registry.layouts hl
    have hsrc := slot_end_le ho₂.sound ha hi
    have hle := hbits.le (ho₂.sound.arrays ha).body
    have hend := ho₂.sound.end_le_top (ho₂.sound.size_bits hbox.type hl hisBits)
    rw [Nat.add_assoc]
    refine Behaves.bind_ran (copyBytes_behaves (k := 0) (S := fun _ _ => True) ho₂ (by omega) (by omega) ?_)
      fun _ _ _ => .pure
    exact .bits hbox.type hl hisBits (by rw [Memory.length_window, hsize]) (hbits.provides ha hi) fun _ => trivial

theorem selectorOf_innocent (h : Heap) (f : ArrayInfo) (t : TypeRef) :
    Raises (selectorOf h f t) (Innocent B) := by
  unfold selectorOf
  refine Raises.bind (Raises.bind (descriptor_innocent h.types f.elem) fun _ _ => .pure) fun members _ => ?_
  split
  · exact .pure
  · exact .throw trivial

theorem set_behaves (ho : InOrder B h) (a : Value) (i : Nat) (x : Value) : Behaves B (set a i x) h := by
  unfold set
  refine Behaves.look_bind ho (ho.info_innocent a) fun f hf => ?_
  refine Behaves.lift_bind ho (checkIndex_innocent f i) fun _ hi => ?_
  refine Behaves.look_bind ho (ho.sound.typeOf_innocent x) fun s hx => ?_
  refine Behaves.look_bind ho (ho.sound.start_innocent f.buffer) fun start hstart => ?_
  have ha := isArray_of_info ho.sound.registry hf
  have hi := ArrayInfo.checkIndex_eq_ok.1 hi
  obtain ⟨-, rfl⟩ := Buffer.start_eq_ok.1 hstart
  have hb := (ho.sound.arrays ha).body
  have hroom := hb.slot_end (Nat.lt_of_lt_of_le hi hb.length_le)
  have hend := slot_end_le ho.sound ha hi
  have hmismatch {y : HeapM Unit} {t : TypeRef} : Behaves B (do
      Action.look fun h => throw (h.types.mismatch f.elem t)
      y) h := Behaves.look_bind ho (.throw trivial) fun _ => nofun
  simp only [Nat.add_assoc]
  cases hstorage : f.flags.storage with
  | references =>
    refine Behaves.look_bind ho ((h.types.isa_fails s f.elem).mono fun _ he => he.innocent) fun fits hfits => ?_
    refine Behaves.ite (fun _ => hmismatch) fun hyes => ?_
    have hisa : h.types.isa s f.elem = .ok true := by
      rw [hfits]
      simpa using hyes
    have hslot := hb.slotSize_references hstorage
    exact storeRef_behaves (S := fun _ _ => True) ho (ho.sound.size_buffer hb.buffer) (by omega)
      (.elementRef ha hi hstorage hx hisa fun _ => trivial)
  | flat =>
    refine Behaves.ite (fun _ => hmismatch) fun hsame => ?_
    rw [Decidable.not_not] at hsame
    rw [hsame] at hx
    obtain ⟨l, hl, hbits, hsize⟩ := hb.flat_bits hstorage
    have hsrc := ho.sound.end_le_top (ho.sound.size_bits hx hl hbits)
    exact copyBytes_behaves (S := fun _ _ => True) ho (by omega) hend
      (.elementBits ha hi hstorage (Memory.length_window _ _ _) (.object hx (TypeTable.isa_self _ _)) fun _ => trivial)
  | selected =>
    refine Behaves.look_bind ho (selectorOf_innocent h f s) fun selector hselector => ?_
    obtain ⟨d, m, hd, hm, rfl⟩ := selectorOf_eq_ok hselector
    refine Behaves.bind (sizeOf_behaves ho s) (sizeOf_meets s) fun n h₁ hl hn ho₁ => ?_
    have hk := hl.keeps fun _ _ => False
    have hs₁ := ho₁.sound
    have ha₁ := ho.sound.isArray_kept ha hk fun _ => id
    have hx := hk.typeOf hx
    have hd := hk.descriptor hd
    obtain ⟨l, hlayout, hbits, rfl, hle⟩ :=
      (hs₁.arrays ha₁).body.member_sized hstorage hd (List.mem_of_getElem? hm) hn
    have hsrc := hs₁.end_le_top (hs₁.size_bits hx hlayout hbits)
    have hlen : (h₁.memory.window x.offset l.size).length = l.size := Memory.length_window _ _ _
    have step : Step (fun _ _ => True) h₁ _ := .elementMember ha₁ hi hstorage hd hm ⟨l, hlayout, hlen.symm⟩
      (.object hx (TypeTable.isa_self _ _)) fun _ => trivial
    rw [hlen] at step
    rw [← Nat.add_assoc refSize]
    exact Behaves.of_step ho₁ (runOn_setMember hs₁ ha₁ hi hstorage hle hsrc) step
      (put_objects.trans (put_objects.trans put_objects))

theorem setScalar_behaves (ho : InOrder B h) (a : Value) (i : Nat) (k : ScalarKind) (x : k.Carrier) :
    Behaves B (setScalar a i k x) h := by
  unfold setScalar
  refine Behaves.look_bind ho (ho.info_innocent a) fun f hf => ?_
  refine Behaves.lift_bind ho (checkIndex_innocent f i) fun _ hi => ?_
  refine Behaves.look_bind ho (ho.sound.start_innocent f.buffer) fun start hstart => ?_
  have ha := isArray_of_info ho.sound.registry hf
  have hi := ArrayInfo.checkIndex_eq_ok.1 hi
  obtain ⟨-, rfl⟩ := Buffer.start_eq_ok.1 hstart
  simp only [Nat.add_assoc]
  cases hstorage : f.flags.storage with
  | references => exact Behaves.bind_ran (Box.new_behaves ho k x) fun box _ _ ho => set_behaves ho a i box
  | flat =>
    refine Behaves.ite (fun _ => Behaves.look_bind ho (.throw trivial) fun _ => nofun) fun hsame => ?_
    have hsame : f.elem = k.type := Decidable.not_not.1 hsame
    refine storeScalar_behaves ho fun bs table table' hrun hlen ho₁ => ?_
    have ha₁ := ho.sound.isArray_symbols ha table
    obtain ⟨l, hl, -, hsize⟩ := (ho₁.sound.arrays ha₁).body.flat_bits hstorage
    rw [hsame] at hl
    have hfit : bs.length = f.flags.slotSize := by
      rw [hlen, ← hsize, (ho₁.sound.scalar_size hl).2]
    have hend := slot_end_le ho₁.sound ha₁ hi
    exact writeBytes_behaves (S := fun _ _ => True) ho₁ (by rw [hfit]; exact hend)
      (.elementBits ha₁ hi hstorage hfit (.scalar hsame.symm hrun) fun _ => trivial)
  | selected =>
    refine Behaves.look_bind ho (selectorOf_innocent h f k.type) fun selector hselector => ?_
    obtain ⟨d, m, hd, hm, rfl⟩ := selectorOf_eq_ok hselector
    have hmeets : Meets (Path fun _ _ => True) (encode k x) h _ := encode_meets k x
    refine Behaves.bind (encode_behaves ho k x) hmeets fun bs h₁ _ hbs ho₁ => ?_
    obtain ⟨⟨table, hrun⟩, hlen, heq⟩ := hbs
    rw [heq] at ho₁ ⊢
    have hs₁ := ho₁.sound
    have ha₁ := ho.sound.isArray_symbols ha h₁.symbols
    obtain ⟨l, hl, -, hle⟩ := (hs₁.arrays ha₁).body.member_bits hstorage hd (List.mem_of_getElem? hm)
    have hsize : l.size = bs.length := by rw [hlen, (hs₁.scalar_size hl).2]
    have step : Step (fun _ _ => True) { h with symbols := h₁.symbols } _ :=
      .elementScalar ha₁ hi hstorage hd hm ⟨l, hl, hsize⟩ (.scalar rfl hrun) fun _ => trivial
    rw [hsize] at hle
    exact Behaves.of_step ho₁ (runOn_setScalarMember hs₁ ha₁ hi hstorage hle) step
      (put_objects.trans (put_objects.trans put_objects))

/-! ## Other lengths and dimensions -/

theorem copyOut_behaves {size : Nat} (ho : InOrder B h) (ha : h.IsArray a f) (hle : f.capacity ≤ n)
    (hsize : bufferSize f.flags.storage f.flags.slotSize n = some size) : Behaves B (copyOut f size n) h := by
  unfold copyOut
  refine Behaves.bind (Buffer.new_behaves ho size) (Buffer.new_meets ho.ready size) fun buffer h₁ _ hbuffer ho₁ => ?_
  have ha₁ := ho.sound.isArray_kept ha hbuffer.kept fun _ => id
  have hspare : h₁.Spare { f with buffer, capacity := n } :=
    ⟨bodySound_of_new hbuffer ho₁.sound (ho₁.sound.arrays ha₁).body.stored
      (Nat.le_trans (ho.sound.arrays ha).body.length_le hle) hsize, fun hb => sole_of_new hbuffer ho.sound hb⟩
  obtain ⟨h₂, hrun, hp, hr, -⟩ := runOn_moveSlots (S := fun _ _ => True) ho₁.sound ha₁ hspare fun _ => trivial
  exact .of_runOn (runOn_bind_ok hrun) .ok (ho₁.path hp hr.objects)

theorem grow_behaves (ho : InOrder B h) (ha : h.IsArray a f) (hndims : f.flags.ndims = 1)
    (hsole : f.flags.isShared = false) (hroom : f.capacity < n) (hn : n < 0x10000000000000000) :
    Behaves B (grow a f n) h := by
  obtain ⟨-, hcapacity, hword⟩ := grownCapacity_bounds hroom hn
  cases hsize : bufferSize f.flags.storage f.flags.slotSize (grownCapacity f.capacity n) with
  | none =>
    unfold grow
    dsimp only
    rw [hsize]
    exact .throw ho trivial
  | some size =>
    rw [grow_eq hsize]
    refine Behaves.bind (copyOut_behaves ho ha hcapacity hsize) (copyOut_meets ho.ready ha hcapacity hsize)
      fun buffer h₁ _ hcopied ho₁ => ?_
    obtain ⟨-, hyoung, ha₁, hspare, hsame⟩ := hcopied
    have hs₁ := ho₁.sound
    have hs₂ := hs₁.moved ha₁ hndims hspare.body hword hspare.sole
    have hr : Rewrites (fun _ _ => True) h₁ ((h₁.putBuffer a buffer _).guarded a buffer) :=
      (putBuffer_writes hs₁ ha₁ hndims fun _ => trivial).toRewrites.trans (.guarded hs₂.arena a buffer)
    exact Behaves.of_step (S := fun _ _ => True) ho₁ (runOn_redirect hs₁ ha₁ hndims hspare hword)
      (.arrayMoved ha₁ hndims hsole hspare.body hword hspare.sole hyoung (fun i hi => (hsame i hi).2)
        fun _ => trivial) hr.objects

theorem resize_behaves (ho : InOrder B h) (a : Value) (hn : n < 0x10000000000000000) :
    Behaves B (resize a n) h := by
  unfold resize
  refine Behaves.look_bind ho (ho.info_innocent a) fun f hf => ?_
  have ha := isArray_of_info ho.sound.registry hf
  refine Behaves.guard ho trivial fun hndims => Behaves.guard ho trivial fun hsole => ?_
  have hndims := Decidable.not_not.1 hndims
  have hsole : f.flags.isShared = false := by simpa using hsole
  refine Behaves.ite (fun hle => ?_) fun hroom => ?_
  · obtain ⟨h', hrun, hp, hwrites, -⟩ := runOn_setLength (S := fun _ _ => True) ho.sound ha hndims hsole hle
      (fun _ => trivial) fun _ => trivial
    exact .of_runOn hrun .ok (ho.path hp hwrites.objects)
  · have hroom := Nat.not_le.1 hroom
    have hgrow := grow_meets (S := fun _ _ => True) ho.ready ha hndims hsole hroom hn fun _ => trivial
    refine Behaves.bind (grow_behaves ho ha hndims hsole hroom hn) hgrow fun _ h₁ _ hgrown ho₁ => ?_
    obtain ⟨buffer, -, ha₁, hsame⟩ := hgrown
    have hlength := (ho.sound.arrays ha).body.length_le
    obtain ⟨hle, -, -⟩ := grownCapacity_bounds hroom hn
    obtain ⟨hb₁, hresized⟩ := resized_grow ho₁.sound ha₁ (by omega) hle hsame
    obtain ⟨hp, -⟩ := resized_putLength (S := fun _ _ => True) hresized ho₁.sound ha₁ hndims hsole hb₁ fun _ => trivial
    exact .of_runOn (runOn_writeLength ho₁.sound ha₁ hndims) .ok 
      (ho₁.path hp (put_objects.trans put_objects))

theorem push_behaves (ho : InOrder B h) (a x : Value) : Behaves B (push a x) h := by
  unfold push
  refine Behaves.look_bind ho (length_innocent ho a) fun n hn => Behaves.guard ho trivial fun hmax => ?_
  obtain ⟨f, ha, rfl⟩ := length_eq_ok ho.sound.registry hn
  have hlt := h.word_lt a lengthWord
  rw [ha.length] at hlt
  have hmaxWord : Heap.maxWord = 0x10000000000000000 - 1 := rfl
  refine Behaves.bind_ran (resize_behaves ho a (by omega)) fun _ h₁ _ ho₁ => ?_
  refine Behaves.recover (set_behaves ho₁ a f.length x) fun e h₂ he _ ho₂ => ?_
  exact Behaves.bind_ran (resize_behaves ho₂ a hlt) fun _ _ _ ho => .throw ho he

theorem reshape_behaves (ho : InOrder B h) (a : Value) (hds : ∀ d ∈ ds, d < 0x10000000000000000) :
    Behaves B (reshape a ds) h := by
  unfold reshape
  refine Behaves.look_bind ho (ho.info_innocent a) fun f hf => Behaves.guard ho trivial fun hcount => ?_
  refine Behaves.look_bind ho (owner_innocent ho a) fun keeper hkeeper => ?_
  have ha := isArray_of_info ho.sound.registry hf
  have hcount := Decidable.not_not.1 hcount
  obtain rfl := eq_buffer_of_owner ho.sound ha hkeeper
  have hfamily := onTypes_meets (h := h) (TypeTable.arrayType_meets ho.sound.registry.types f.elem ds.length)
  refine Behaves.bind (arrayType_behaves ho f.elem ds.length) hfamily fun t h₁ hl ht ho₁ => ?_
  have ha₁ := ho.sound.isArray_learns ha hl
  refine build_behaves ho₁ t ds.length fun view h₂ hview hp₂ => ?_
  have hs₂ := hp₂.sound ho₁.sound
  have ha₂ := ho₁.sound.isArray_kept ha₁ hview.kept fun _ => id
  have htype := arrayType_of_new hview (ht.stands.extends hview.kept.registry.types)
  have hne : a ≠ view := by
    rintro rfl
    exact hview.fresh ha₁.live
  have hcapacity := h₂.word_lt a capacityWord
  rw [ha₂.capacity] at hcapacity
  have step : Step (fun _ _ => True) h₂ (h₂.putView a view f ds) :=
    .arrayViewed ha₂ htype hne hcount hds hview.young (fun _ => trivial) fun _ _ _ => trivial
  have hr : Writes (fun _ _ => True) h₂ (h₂.putView a view f ds) :=
    putView_writes hs₂ ha₂ htype (fun _ => trivial) fun _ _ _ => trivial
  exact ⟨_, view, runOn_buildView hs₂ ha₂ htype, .step step, hr.objects, _,
    (arraySound_putView hs₂ ha₂ htype hne hcount hcapacity hds).2.1⟩

end ArrayObject

end TypedHeap
