import TypedHeap.Proofs.Array.Order
import TypedHeap.Proofs.Object.Blind

/-!
# Operations on arrays do not see the collector's state

The words of an array lie in its payload and its elements in the payload of its buffer, where no flags are. When
an array moves, the barrier is told of the array and its new buffer, so it has nothing to object to.

* `ArrayObject.new_blind`: new arrays.
* `ArrayObject.info_eq`, `dims_eq`, …: questions.
* `ArrayObject.get_blind`, `set_blind`: elements.
* `ArrayObject.resize_blind`, `push_blind`, `reshape_blind`: other lengths and dimensions.
-/

namespace TypedHeap

open Heap

variable {α : Type} {B : Value → Prop} {h k : Heap} {a b : Value} {f : ArrayInfo} {i n : Nat}

namespace ArrayObject

/-! ## New arrays -/

theorem widest_blind (ts : List TypeRef) : Blind (widest ts) h := by
  induction ts generalizing h with
  | nil => exact .pure
  | cons t ts ih =>
    unfold widest
    refine Blind.bind_all (onRegistry_blind _) fun inline _ => Blind.ite (fun _ => ?_) fun _ => .pure
    exact Blind.bind_all (onRegistry_blind _) fun size _ => Blind.bind_all ih fun _ _ => .pure

theorem unionSlot_blind (members : List TypeRef) : Blind (unionSlot members) h := by
  unfold unionSlot
  refine Blind.bind_all (widest_blind members) fun width _ => ?_
  split
  · exact Blind.ite (fun _ => .pure) fun _ => .pure
  · exact .pure

theorem wideStorage_blind (elem : TypeRef) : Blind (wideStorage elem) h := by
  unfold wideStorage
  refine Blind.get_bind (fun _ hk => by rw [hk.types_eq]) (Blind.lift_bind fun d _ => ?_)
  refine Blind.ite (fun _ => ?_) fun _ => .pure
  refine Blind.bind_all (unionSlot_blind d.memberTypes) fun slot _ => ?_
  split <;> exact .pure

theorem elementStorage_blind (elem : TypeRef) : Blind (elementStorage elem) h := by
  rw [elementStorage_eq]
  refine Blind.bind_all (onRegistry_blind _) fun inline _ => Blind.ite (fun _ => ?_) fun _ => wideStorage_blind elem
  refine Blind.bind_all (onRegistry_blind _) fun size _ => ?_
  exact Blind.ite (fun _ => .pure) fun _ => wideStorage_blind elem

theorem writeDims_blind (a : Value) (i : Nat) (ds : List Nat) : Blind (writeDims a i ds) h := by
  induction ds generalizing h i with
  | nil => exact .pure
  | cons d ds ih => exact Blind.bind_all (writeWord_blind _ d) fun _ _ => ih (i + 1)

theorem writeAll_blind (a : Value) (f : ArrayInfo) (ds : List Nat) (owner : Value) :
    Blind (writeAll a f ds owner) h := by
  refine Blind.bind_all (writeRef_blind _ _) fun _ _ => Blind.bind_all (writeWord_blind _ _) fun _ _ => ?_
  refine Blind.bind_all (writeWord_blind _ _) fun _ _ => Blind.bind_all (writeWord_blind _ _) fun _ _ => ?_
  exact Blind.bind_all (writeDims_blind a 0 ds) fun _ _ => writeRef_blind _ _

theorem new_blind (elem : TypeRef) (ds : List Nat) : Blind (new elem ds) h := by
  unfold new
  cases elementCount ds with
  | none => exact .throw
  | some n =>
    refine Blind.bind_all (onRegistry_blind _) fun t _ => Blind.bind_all (elementStorage_blind elem) fun p _ => ?_
    obtain ⟨storage, slotSize⟩ := p
    dsimp only
    cases bufferSize storage slotSize n with
    | none => exact .throw
    | some size =>
      refine Blind.bind_all (allocate_blind _ size) fun buffer _ => ?_
      refine Blind.bind_all (allocate_blind t ds.length) fun a _ => ?_
      exact Blind.bind_all (writeAll_blind _ _ _ _) fun _ _ => .pure

/-! ## Questions -/

/-- The fixed part of an array lies in its payload. -/
theorem info_eq (hk : Alike h k) (hs : h.Sound) (a : Value) : info k a = info h a := by
  unfold info
  rw [hk.descriptor_eq, hk.types_eq]
  refine bind_congr_ok fun d hd => ?_
  split
  · rfl
  · rename_i hkind
    obtain ⟨t, ht, hd⟩ := descriptor_eq_ok.1 hd
    obtain ⟨elem, r, hparams, hlo, -⟩ := hs.registry.types.array hd (not_not.1 hkind)
    have htype : h.ArrayType a elem r.toInt.toNat :=
      ⟨t, d, r, ht, hd, not_not.1 hkind, hparams, (Int.toNat_of_nonneg hlo).symm⟩
    have hn := hs.size_array htype
    have hroom : 32 ≤ ownerOffset r.toInt.toNat + refSize := by
      simp only [ownerOffset, refSize]
      omega
    rw [hk.readWord_eq hn (j := flagsWord) (Nat.le_trans (by decide) hroom),
      hk.readRef_eq hn (j := bufferWord) (Nat.le_trans (by decide) hroom),
      hk.readWord_eq hn (j := lengthWord) (Nat.le_trans (by decide) hroom),
      hk.readWord_eq hn (j := capacityWord) (Nat.le_trans (by decide) hroom)]

/-- A question about the fixed part of an array. -/
theorem ask_eq {g : ArrayInfo → α} (hk : Alike h k) (hs : h.Sound) (a : Value) :
    (do return g (← info k a) : Except Error α) = (do return g (← info h a)) := by
  rw [info_eq hk hs]

theorem length_eq (hk : Alike h k) (hs : h.Sound) (a : Value) : length k a = length h a := ask_eq hk hs a

theorem ndims_eq (hk : Alike h k) (hs : h.Sound) (a : Value) : ndims k a = ndims h a := ask_eq hk hs a

/-- So do the dimensions. -/
theorem readWord_dim_eq (hk : Alike h k) (hs : h.Sound) (ha : h.IsArray a f) (hi : i < f.flags.ndims) :
    k.readWord (a.offset + dimWord i) = h.readWord (a.offset + dimWord i) := by
  refine hk.readWord_eq (hs.size_array (hs.arrays ha).type) ?_
  simp only [ownerOffset, dimWord, refSize]
  omega

theorem dim_eq (hk : Alike h k) (hs : h.Sound) (a : Value) (i : Nat) : dim k a i = dim h a i := by
  unfold dim
  rw [ndims_eq hk hs]
  refine bind_congr_ok fun n hn => ?_
  obtain ⟨f, ha, rfl⟩ := ndims_eq_ok hs hn
  split
  · rfl
  · rename_i hi
    exact readWord_dim_eq hk hs ha (Nat.not_le.1 hi)

theorem dims_eq (hk : Alike h k) (hs : h.Sound) (a : Value) : dims k a = dims h a := by
  unfold dims
  rw [ndims_eq hk hs]
  refine bind_congr_ok fun n hn => ?_
  obtain ⟨f, ha, rfl⟩ := ndims_eq_ok hs hn
  exact mapM_congr fun i hi => readWord_dim_eq hk hs ha (List.mem_range.1 hi)

theorem owner_eq (hk : Alike h k) (hs : h.Sound) (a : Value) : owner k a = owner h a := by
  unfold owner
  rw [info_eq hk hs]
  refine bind_congr_ok fun f hf => ?_
  have ha := hs.info_iff.1 hf
  rw [hk.readRef_eq (hs.size_array (hs.arrays ha).type) (Nat.le_refl _)]

theorem linearIndex_eq (hk : Alike h k) (hs : h.Sound) (a : Value) (position : List Nat) :
    linearIndex k a position = linearIndex h a position := by
  rw [linearIndex, linearIndex, dims_eq hk hs]

theorem data_eq (hk : Alike h k) (hs : h.Sound) (a : Value) : data k a = data h a := by
  rw [data, data, info_eq hk hs]
  exact bind_congr_ok fun f _ => by rw [Buffer.start_eq hk]

theorem members_eq (hk : Alike h k) (f : ArrayInfo) : members k f = members h f := by
  rw [members, members, hk.types_eq]

theorem selectorOf_eq (hk : Alike h k) (f : ArrayInfo) (t : TypeRef) : selectorOf k f t = selectorOf h f t := by
  rw [selectorOf, selectorOf, members_eq hk, hk.types_eq]

/-! ## Elements -/

/-- What lies in the slot of an element is the same. -/
theorem bytes_slot_eq (hk : Alike h k) (hs : h.Sound) (ha : h.IsArray a f) (hi : i < f.length)
    (hle : n ≤ f.flags.slotSize) :
    k.bytes (f.buffer.offset + (refSize + f.slotOffset i)) n =
      h.bytes (f.buffer.offset + (refSize + f.slotOffset i)) n := by
  have hb := (hs.arrays ha).body
  have hroom := hb.slot_end (Nat.lt_of_lt_of_le hi hb.length_le)
  exact hk.bytes_eq (hs.size_buffer hb.buffer) (by omega)

theorem selected_eq_of_alike (hk : Alike h k) (hs : h.Sound) (ha : h.IsArray a f) (hi : i < f.length)
    (hstorage : f.flags.storage = .selected) :
    selected k f (f.buffer.offset + (refSize + f.selectorOffset i)) =
      selected h f (f.buffer.offset + (refSize + f.selectorOffset i)) := by
  have hb := (hs.arrays ha).body
  have hroom : f.selectorOffset i + 1 ≤ h.word f.buffer 0 :=
    hb.selector_end hstorage (Nat.le_trans hi hb.length_le)
  unfold selected
  rw [hk.bytes_eq (hs.size_buffer hb.buffer) (by omega), members_eq hk]

theorem get_blind (hs : h.Sound) (a : Value) (i : Nat) : Blind (get a i) h := by
  unfold get
  refine Blind.look_bind (fun _ hk => info_eq hk hs a) fun f hf => Blind.lift_bind fun _ hi => ?_
  refine Blind.look_bind (fun _ hk => Buffer.start_eq hk f.buffer) fun start hstart => ?_
  have ha := hs.info_iff.1 hf
  have hi := ArrayInfo.checkIndex_eq_ok.1 hi
  obtain ⟨-, rfl⟩ := Buffer.start_eq_ok.1 hstart
  have hb := (hs.arrays ha).body
  have hroom := hb.slot_end (Nat.lt_of_lt_of_le hi hb.length_le)
  simp only [Nat.add_assoc]
  cases hstorage : f.flags.storage with
  | references =>
    have hslot := hb.slotSize_references hstorage
    refine Blind.look_bind (fun _ hk => hk.readRef_eq (hs.size_buffer hb.buffer) (by omega)) fun r _ => ?_
    cases r with
    | some x => exact .pure
    | none => exact .throw
  | flat => exact Blind.look_bind (fun _ hk => bytes_slot_eq hk hs ha hi (Nat.le_refl _)) fun _ _ => .pure
  | selected =>
    refine Blind.look_bind (fun _ hk => selected_eq_of_alike hk hs ha hi hstorage) fun t ht => ?_
    refine Blind.bind (onRegistry_blind _) (sizeOf_meets t) fun n h₁ hl hn => ?_
    have hs₁ := hs.learns hl
    have ha₁ := hs.isArray_learns ha hl
    obtain ⟨d, hd, hmember⟩ := selected_eq_ok ht
    have hle := hs₁.member_le ha₁ hstorage (hl.extends.descriptor hd) (List.mem_of_getElem? hmember) hn
    exact Blind.look_bind (fun _ hk => bytes_slot_eq hk hs₁ ha₁ hi hle) fun _ _ => .pure

theorem getScalar_blind (hs : h.Sound) (kind : ScalarKind) (a : Value) (i : Nat) :
    Blind (getScalar kind a i) h :=
  Blind.bind (get_blind hs a i) (get_meets hs a i) fun d _ hl _ =>
    .look fun _ hk => Datum.read_eq hk (hs.learns hl) kind d

theorem getValue_blind (ho : InOrder B h) (a : Value) (i : Nat) : Blind (getValue a i) h := by
  unfold getValue
  refine Blind.bind_known (get_blind ho.sound a i) (get_behaves ho a i) (get_meets ho.sound a i)
    fun d h₁ _ hd ho₁ => ?_
  have hs₁ := ho₁.sound
  cases d with
  | ref x => exact .pure
  | bits t bytes =>
    obtain ⟨f, ha, hi, hbits⟩ := hd rfl
    refine Blind.look_bind (fun _ hk => info_eq hk hs₁ a) fun g hg => ?_
    cases ha.unique (hs₁.info_iff.1 hg)
    refine Blind.look_bind (fun _ hk => Buffer.start_eq hk f.buffer) fun start hstart => ?_
    obtain ⟨-, rfl⟩ := Buffer.start_eq_ok.1 hstart
    refine Blind.bind (allocate_blind t 0) (allocate_meets ho₁.ready t 0) fun box h₂ hpath hbox => ?_
    have hb := (hs₁.arrays ha).body
    have hroom := hb.slot_end (Nat.lt_of_lt_of_le hi hb.length_le)
    have hle := hbits.le hb
    have hn := (hpath.keeps hs₁).size? (hs₁.size_buffer hb.buffer)
    rw [Nat.add_assoc]
    exact Blind.bind_all (copyBytes_blind hn (by omega) _) fun _ _ => .pure

theorem set_blind (ho : InOrder B h) (a : Value) (i : Nat) (x : Value) : Blind (set a i x) h := by
  have hs := ho.sound
  unfold set
  refine Blind.look_bind (fun _ hk => info_eq hk hs a) fun f hf => Blind.lift_bind fun _ hi => ?_
  refine Blind.look_bind (fun _ hk => hk.typeOf_eq x) fun s hx => ?_
  refine Blind.look_bind (fun _ hk => Buffer.start_eq hk f.buffer) fun start hstart => ?_
  have ha := hs.info_iff.1 hf
  have hb := (hs.arrays ha).body
  have hmismatch {y : HeapM Unit} {t : TypeRef} : Blind (do
      Action.look fun h => throw (h.types.mismatch f.elem t)
      y) h := Blind.look_bind (fun _ hk => by rw [hk.types_eq]) fun _ => nofun
  cases hstorage : f.flags.storage with
  | references =>
    refine Blind.look_bind (fun _ hk => by rw [hk.types_eq]) fun fits _ => Blind.ite (fun _ => hmismatch) fun _ => ?_
    exact storeRef_blind (live_of_typeOf hb.buffer) (live_of_typeOf hx) _
  | flat =>
    refine Blind.ite (fun _ => hmismatch) fun hsame => ?_
    rw [Decidable.not_not] at hsame
    rw [hsame] at hx
    obtain ⟨l, hl, hbits, hsize⟩ := hb.flat_bits hstorage
    exact copyBytes_blind (j := 0) (hs.size_bits hx hl hbits) (by omega) _
  | selected =>
    refine Blind.look_bind (fun _ hk => selectorOf_eq hk f s) fun selector hselector => ?_
    obtain ⟨d, m, hd, hm, -⟩ := selectorOf_eq_ok hselector
    refine Blind.bind (onRegistry_blind _) (sizeOf_meets s) fun n h₁ hl hn => ?_
    have hs₁ := hs.learns hl
    have ha₁ := hs.isArray_learns ha hl
    obtain ⟨l, hlayout, hbits, rfl, -⟩ :=
      (hs₁.arrays ha₁).body.member_sized hstorage (hl.extends.descriptor hd) (List.mem_of_getElem? hm) hn
    have hsrc := hs₁.size_bits (hl.extends.typeOf hx) hlayout hbits
    refine Blind.bind_all (copyBytes_blind (j := 0) hsrc (by omega) _) fun _ _ => ?_
    exact Blind.bind_all (clearBytes_blind _ _) fun _ _ => writeBytes_blind _ _

theorem setScalar_blind (ho : InOrder B h) (a : Value) (i : Nat) (kind : ScalarKind) (x : kind.Carrier) :
    Blind (setScalar a i kind x) h := by
  have hs := ho.sound
  unfold setScalar
  refine Blind.look_bind (fun _ hk => info_eq hk hs a) fun f hf => Blind.lift_bind fun _ hi => ?_
  refine Blind.look_bind (fun _ hk => Buffer.start_eq hk f.buffer) fun start hstart => ?_
  cases f.flags.storage with
  | references =>
    exact Blind.bind_ordered (Box.new_blind kind x) (Box.new_behaves ho kind x) fun box _ ho => set_blind ho a i box
  | flat =>
    refine Blind.ite (fun _ => Blind.look_bind (fun _ hk => by rw [hk.types_eq]) fun _ => nofun) fun _ => ?_
    exact storeScalar_blind _ kind x
  | selected =>
    refine Blind.look_bind (fun _ hk => selectorOf_eq hk f kind.type) fun selector _ => ?_
    refine Blind.bind_all (encode_blind kind x) fun bs _ => Blind.bind_all (clearBytes_blind _ _) fun _ _ => ?_
    exact Blind.bind_all (writeBytes_blind _ _) fun _ _ => writeBytes_blind _ _

/-! ## Other lengths and dimensions -/

theorem clearSlots_blind (f : ArrayInfo) (lo hi : Nat) : Blind (clearSlots f lo hi) h := by
  refine Blind.look_bind (fun _ hk => Buffer.start_eq hk f.buffer) fun start _ => ?_
  refine Blind.bind_all (clearBytes_blind _ _) fun _ _ => Blind.ite (fun _ => clearBytes_blind _ _) fun _ => .pure

/-- What moves to another buffer are the slots in use and their selectors, which lie in the old one. -/
theorem moveSlots_blind (hs : h.Sound) (ha : h.IsArray a f) (buffer : Value) (n : Nat) :
    Blind (moveSlots f buffer n) h := by
  have hb := (hs.arrays ha).body
  refine Blind.look_bind (fun _ hk => Buffer.start_eq hk f.buffer) fun start hstart => ?_
  refine Blind.look_bind (fun _ hk => Buffer.start_eq hk buffer) fun start' _ => ?_
  obtain ⟨-, rfl⟩ := Buffer.start_eq_ok.1 hstart
  have hsize := hs.size_buffer hb.buffer
  have hslots : f.length * f.flags.slotSize ≤ h.word f.buffer 0 := (hb.slots_end (Nat.zero_le _) hb.length_le).2
  refine copyBytes_bind_blind hsize (by omega) fun h₁ hobjects => Blind.ite (fun hstorage => ?_) fun _ => .pure
  have hselectors : f.selectorOffset 0 + f.length ≤ h.word f.buffer 0 := by
    have hend := hb.selector_end hstorage hb.length_le
    simp only [ArrayInfo.selectorOffset] at hend ⊢
    omega
  rw [Nat.add_assoc]
  exact copyBytes_blind ((size?_congr hobjects _).trans hsize) (by omega) _

theorem copyOut_blind {size : Nat} (ho : InOrder B h) (ha : h.IsArray a f) (n : Nat) :
    Blind (copyOut f size n) h := by
  refine Blind.bind_known (allocate_blind _ size) (Buffer.new_behaves ho size) (Buffer.new_meets ho.ready size)
    fun buffer h₁ _ hbuffer ho₁ => ?_
  have ha₁ := ho.sound.isArray_kept ha hbuffer.kept fun _ => id
  exact Blind.bind_all (moveSlots_blind ho₁.sound ha₁ buffer n) fun _ _ => .pure

/-- The barrier comes last, when array and buffer still are objects. -/
theorem redirect_blind (ha : h.Live a) (hb : h.Live b) (n : Nat) : Blind (redirect a n b) h := by
  refine writeBytes_bind_blind fun _ h₁ => writeBytes_bind_blind fun _ h₂ => writeBytes_bind_blind fun _ h₃ => ?_
  have hobjects := h₃.trans (h₂.trans h₁)
  exact writeBarrier_blind ((live_congr hobjects).2 ha) ((live_congr hobjects).2 hb)

theorem grow_blind (ho : InOrder B h) (ha : h.IsArray a f) (hroom : f.capacity < n) (hn : n < 0x10000000000000000) :
    Blind (grow a f n) h := by
  obtain ⟨-, hcapacity, -⟩ := grownCapacity_bounds hroom hn
  cases hsize : bufferSize f.flags.storage f.flags.slotSize (grownCapacity f.capacity n) with
  | none =>
    unfold grow
    dsimp only
    rw [hsize]
    exact .throw
  | some size =>
    rw [grow_eq hsize]
    refine Blind.bind (copyOut_blind ho ha _) (copyOut_meets ho.ready ha hcapacity hsize) fun buffer h₁ _ hcopied => ?_
    obtain ⟨-, -, ha₁, hspare, -⟩ := hcopied
    exact redirect_blind ha₁.live (live_of_typeOf hspare.body.buffer) _

theorem resize_blind (ho : InOrder B h) (a : Value) (hn : n < 0x10000000000000000) : Blind (resize a n) h := by
  unfold resize
  refine Blind.look_bind (fun _ hk => info_eq hk ho.sound a) fun f hf => Blind.guard fun _ => Blind.guard fun _ => ?_
  have hlength {h' : Heap} : Blind (do
      writeWord (a.offset + lengthWord) n
      writeWord (a.offset + dimWord 0) n) h' := Blind.bind_all (writeWord_blind _ n) fun _ _ => writeWord_blind _ n
  refine Blind.ite (fun _ => Blind.bind_all (clearSlots_blind f _ _) fun _ _ => hlength) fun hroom => ?_
  exact Blind.bind_all (grow_blind ho (ho.sound.info_iff.1 hf) (Nat.not_le.1 hroom) hn) fun _ _ => hlength

theorem push_blind (ho : InOrder B h) (a x : Value) : Blind (push a x) h := by
  unfold push
  refine Blind.look_bind (fun _ hk => length_eq hk ho.sound a) fun n hn => Blind.guard fun hmax => ?_
  obtain ⟨f, ha, rfl⟩ := length_eq_ok ho.sound.registry hn
  have hlt := h.word_lt a lengthWord
  rw [ha.length] at hlt
  have hmaxWord : Heap.maxWord = 0x10000000000000000 - 1 := rfl
  have hlt' : f.length + 1 < 0x10000000000000000 := by omega
  refine Blind.bind_ordered (resize_blind ho a hlt') (resize_behaves ho a hlt') fun _ h₁ ho₁ => ?_
  refine Blind.recover (set_blind ho₁ a f.length x) fun e h₂ hrun => ?_
  have ho₂ := (set_behaves ho₁ a f.length x).order
  rw [hrun] at ho₂
  exact Blind.bind_all (resize_blind ho₂ a hlt) fun _ _ => .throw

theorem reshape_blind (hs : h.Sound) (a : Value) (ds : List Nat) : Blind (reshape a ds) h := by
  unfold reshape
  refine Blind.look_bind (fun _ hk => info_eq hk hs a) fun f _ => Blind.guard fun _ => ?_
  refine Blind.look_bind (fun _ hk => owner_eq hk hs a) fun keeper _ => ?_
  refine Blind.bind_all (onRegistry_blind _) fun t _ => Blind.bind_all (allocate_blind t _) fun view _ => ?_
  refine Blind.bind_all (writeAll_blind _ _ _ _) fun _ _ => ?_
  exact Blind.bind_all (writeWord_blind _ _) fun _ _ => .pure

end ArrayObject

end TypedHeap
