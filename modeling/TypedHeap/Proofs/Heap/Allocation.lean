import TypedHeap.Heap.Allocate
import TypedHeap.Proofs.Array.Changes
import TypedHeap.Proofs.Heap.Barrier

/-!
# Allocation

* `Heap.placed`, `Heap.allocated`: the heap with one more object.
* `Heap.SizeFor`: the payload size that a type asks for.
* `Heap.Added`: what there is to know about a heap with one more object.
* `Heap.payloadSize_meets`, `runOn_place`: runs.

Main results: `placed_added`, `Added.sound`, `Sound.allocated`.
-/

namespace TypedHeap.Heap

open TypedHeap.Action (Meets)
open ArrayObject

variable {h h' : Heap} {v w : Value} {t : TypeRef} {d : Descriptor} {n m k extra : Nat}

/-! ## The new object -/

/-- The heap with memory up to `stop`. -/
def reserved (h : Heap) (stop : Nat) : Heap :=
  if h.memory.length < stop then
    let length := min (max stop (h.memory.length * 2)) h.limit
    { h with memory := h.memory.grow length, stats := { h.stats with capacityBytes := length } }
  else h

/-- The heap with an object entered that has no header yet. -/
def entered (h : Heap) (v : Value) (n : Nat) : Heap :=
  { h with
    top := v.offset + n
    objects := (v.offset, n) :: h.objects
    stats := { h.stats with
      objects := h.stats.objects + 1
      allocatedBytes := h.stats.allocatedBytes + (n + headerSize) } }

/-- The heap with one more object, all of whose payload is zero. -/
def placed (h : Heap) (v : Value) (t : TypeRef) (n : Nat) : Heap :=
  ((h.reserved (v.offset + n)).entered v n).setHeader v (Header.new t GcBits.none)

/-- The heap with one more object, which says its length if its kind has one. -/
def allocated (h : Heap) (v : Value) (d : Descriptor) (extra n : Nat) : Heap :=
  if hasLength d.kind then (h.placed v d.ref n).putWord v 0 extra else h.placed v d.ref n

section Reserved

variable {stop : Nat}

@[simp] theorem reserved_registry : (h.reserved stop).registry = h.registry := by
  unfold reserved; split <;> rfl

@[simp] theorem reserved_config : (h.reserved stop).config = h.config := by
  unfold reserved; split <;> rfl

@[simp] theorem reserved_objects : (h.reserved stop).objects = h.objects := by
  unfold reserved; split <;> rfl

@[simp] theorem reserved_barrier : (h.reserved stop).barrier = h.barrier := by
  unfold reserved; split <;> rfl

@[simp] theorem reserved_get (i : Nat) : (h.reserved stop).memory.get i = h.memory.get i := by
  unfold reserved; split <;> rfl

@[simp] theorem reserved_count : (h.reserved stop).stats.objects = h.stats.objects := by
  unfold reserved; split <;> rfl

@[simp] theorem reserved_allocatedBytes :
    (h.reserved stop).stats.allocatedBytes = h.stats.allocatedBytes := by
  unfold reserved; split <;> rfl

theorem reserved_length (hlimit : stop ≤ h.limit) (hlen : h.memory.length ≤ h.limit) :
    stop ≤ (h.reserved stop).memory.length ∧ (h.reserved stop).memory.length ≤ h.limit ∧
      h.memory.length ≤ (h.reserved stop).memory.length := by
  unfold reserved
  split
  · show stop ≤ max h.memory.length (min (max stop (h.memory.length * 2)) h.limit) ∧
      max h.memory.length (min (max stop (h.memory.length * 2)) h.limit) ≤ h.limit ∧
      h.memory.length ≤ max h.memory.length (min (max stop (h.memory.length * 2)) h.limit)
    omega
  · exact ⟨by omega, hlen, Nat.le_refl _⟩

theorem reserved_capacity (hlimit : stop ≤ h.limit) (hcap : h.stats.capacityBytes = h.memory.length) :
    (h.reserved stop).stats.capacityBytes = (h.reserved stop).memory.length := by
  unfold reserved
  split
  · show min (max stop (h.memory.length * 2)) h.limit =
      max h.memory.length (min (max stop (h.memory.length * 2)) h.limit)
    omega
  · exact hcap

@[simp] theorem reserved_barrierHits : (h.reserved stop).stats.barrierHits = h.stats.barrierHits := by
  unfold reserved; split <;> rfl

end Reserved

section Placed

@[simp] theorem placed_registry : (h.placed v t n).registry = h.registry := by
  simp [placed, setHeader, entered]

@[simp] theorem placed_config : (h.placed v t n).config = h.config := by
  simp [placed, setHeader, entered]

@[simp] theorem placed_top : (h.placed v t n).top = v.offset + n := by
  simp [placed, setHeader, entered]

@[simp] theorem placed_barrier : (h.placed v t n).barrier = h.barrier := by
  simp [placed, setHeader, entered]

@[simp] theorem placed_objects : (h.placed v t n).objects = (v.offset, n) :: h.objects := by
  simp [placed, setHeader, entered]

@[simp] theorem placed_count : (h.placed v t n).stats.objects = h.stats.objects + 1 := by
  simp [placed, setHeader, entered]

@[simp] theorem placed_allocatedBytes :
    (h.placed v t n).stats.allocatedBytes = h.stats.allocatedBytes + (n + headerSize) := by
  simp [placed, setHeader, entered]

@[simp] theorem placed_capacityBytes :
    (h.placed v t n).stats.capacityBytes = (h.reserved (v.offset + n)).stats.capacityBytes := by
  simp [placed, setHeader, entered]

@[simp] theorem placed_barrierHits : (h.placed v t n).stats.barrierHits = h.stats.barrierHits := by
  simp [placed, setHeader, entered]

/-- Only the header of the new object is written. -/
theorem placed_get {i : Nat} (hi : i < v.offset - 8 ∨ v.offset - 8 + 8 ≤ i) :
    (h.placed v t n).memory.get i = h.memory.get i := by
  rw [placed, setHeader, putHeader_memory,
    Memory.get_write_of_not_mem _ (by rw [LittleEndian.length_toBytes]; exact hi)]
  exact reserved_get i

theorem placed_length : (h.placed v t n).memory.length = (h.reserved (v.offset + n)).memory.length := by
  rw [placed, setHeader, putHeader_memory, Memory.length_write]
  rfl

end Placed

/-! ## What is added -/

/-- A heap with one more object: `v`, of type `t`, with a payload of `n` bytes and no flag set. -/
structure Added (h h' : Heap) (v : Value) (t : TypeRef) (n : Nat) : Prop where
  registry : h'.registry = h.registry
  objects : h'.objects = (v.offset, n) :: h.objects
  arena : h'.Arena
  fresh : ¬h.Live v
  typeOf : h'.typeOf v = .ok t
  gc : (h'.headerOf v).gc = GcBits.none
  headers : ∀ w, h.Live w → h'.headerOf w = h.headerOf w
  queue : h'.barrier = h.barrier
  hits : h'.stats.barrierHits = h.stats.barrierHits
  /-- At most the first word says something. -/
  zero : ∀ k, refSize ≤ k → h'.byte v k = 0
  keeps : Keeps (fun _ _ => False) h h'

theorem nextStart_bounds (h : Heap) :
    h.top + 8 ≤ h.nextStart ∧ h.nextStart % 16 = 0 ∧ h.nextStart < h.top + 24 := by
  have h1 : h.top + headerSize ≤ h.nextStart := le_alignUp (by decide)
  have h2 : payloadAlign ∣ h.nextStart := dvd_alignUp _ _
  have h3 : h.nextStart < h.top + headerSize + payloadAlign := alignUp_lt (by decide)
  simp only [headerSize, payloadAlign] at h1 h2 h3
  omega

theorem type?_lt (t : TypeRef) (g : GcBits) : (Header.new t g).word < 0x10000000000000000 := by
  have h1 := g.toNat_lt
  have h2 := t.lt
  simp only [Header.new, TypeRef.addr]
  omega

theorem size?_of_cons (hobjects : h'.objects = (v.offset, n) :: h.objects) (w : Value) :
    h'.size? w = if w = v then some n else h.size? w := by
  rw [size?, hobjects, List.lookup_cons]
  by_cases hw : w = v
  · rw [hw, beq_self_eq_true, if_pos rfl]
  · have hne : (w.offset == v.offset) = false := beq_eq_false_iff_ne.2 fun heq => hw (Value.ext heq)
    rw [hne, if_neg hw]
    rfl

theorem Added.size? (ha : Added h h' v t n) (w : Value) :
    h'.size? w = if w = v then some n else h.size? w :=
  size?_of_cons ha.objects w

theorem size?_placed (w : Value) :
    (h.placed v t n).size? w = if w = v then some n else h.size? w :=
  size?_of_cons placed_objects w

/-- Objects end before the header of the next one. -/
theorem Arena.end_le_nextStart (ha : h.Arena) (hv : v.offset = h.nextStart) (hm : h.size? w = some m) :
    w.offset + m + 8 ≤ v.offset := by
  have hend := ha.end_le hm
  have hstart := h.nextStart_bounds.1
  omega

theorem Arena.not_live_nextStart (ha : h.Arena) (hv : v.offset = h.nextStart) : ¬h.Live v := by
  rintro ⟨m, hm⟩
  have hend := ha.end_le_nextStart hv hm
  omega

theorem headerOf_placed (ha : h.Arena) (hv : v.offset = h.nextStart) (hend : v.offset + n ≤ h.limit) :
    (h.placed v t n).headerOf v = Header.new t GcBits.none := by
  have hstart := h.nextStart_bounds.1
  refine headerOf_setHeader ?_ (type?_lt t _)
  have hlength := (reserved_length hend ha.limit).1
  show v.offset - 8 + 8 ≤ (h.reserved (v.offset + n)).memory.length
  omega

theorem headerOf_placed_of_live (ha : h.Arena) (hv : v.offset = h.nextStart) (hw : h.Live w) :
    (h.placed v t n).headerOf w = h.headerOf w := by
  have hge := ha.offset_ge hw
  obtain ⟨m, hm⟩ := hw
  have hbefore := ha.end_le_nextStart hv hm
  rw [headerOf, headerOf, Memory.window_congr fun j hj => placed_get (.inl (by omega))]

theorem placed_typeOf (ha : h.Arena) (hv : v.offset = h.nextStart) (hend : v.offset + n ≤ h.limit)
    (ht : h.types.contains t = true) : (h.placed v t n).typeOf v = .ok t := by
  have hstart := h.nextStart_bounds.1
  refine typeOf_eq_ok.2 ⟨⟨n, by rw [size?_placed, if_pos rfl]⟩, ?_, ?_, ?_⟩
  · rw [placed_top]
    omega
  · rw [headerOf_placed ha hv hend, Header.type?_new]
  · rw [types, placed_registry]
    exact ht

/-- The new object lies behind the ones that are there, and is counted. -/
theorem placed_arena (ha : h.Arena) (hv : v.offset = h.nextStart) (hend : v.offset + n ≤ h.limit) :
    (h.placed v t n).Arena := by
  obtain ⟨hstart, hmod, -⟩ := hv ▸ h.nextStart_bounds
  obtain ⟨hreach, hlimit, -⟩ := reserved_length hend ha.limit
  refine ⟨?_, ?_, ?_, ?_, ?_, ?_, ?_, ?_, ?_⟩
  · rw [placed_objects]
    exact List.forall_mem_cons.2 ⟨⟨v.pos, hmod⟩, ha.aligned⟩
  · rw [placed_objects]
    refine List.pairwise_cons.2 ⟨fun p hp => ?_, ha.ordered⟩
    have hbelow := ha.below p hp
    show p.1 + p.2 + 8 ≤ v.offset
    omega
  · rw [placed_objects, placed_top]
    refine List.forall_mem_cons.2 ⟨Nat.le_refl _, fun p hp => ?_⟩
    have hbelow := ha.below p hp
    omega
  · rw [placed_top, placed_length]
    exact hreach
  · rw [placed_length, placed_capacityBytes, reserved_capacity hend ha.capacity]
  · rw [placed_length, limit, placed_config]
    exact hlimit
  · intro i hi
    rw [placed_top] at hi
    rw [placed_get (by omega), ha.vacant i (by omega)]
  · rw [placed_objects, placed_count, List.length_cons, ha.count]
  · rw [placed_objects, placed_allocatedBytes, List.map_cons, List.sum_cons, ha.allocated, headerSize]
    omega

/-- The new object does not touch the ones that are there. -/
theorem placed_keeps {S : Value → Nat → Prop} (ha : h.Arena) (hv : v.offset = h.nextStart) :
    Keeps S h (h.placed v t n) := by
  have hsize {w : Value} {m : Nat} (hm : h.size? w = some m) : (h.placed v t n).size? w = some m := by
    rw [size?_placed, if_neg]
    · exact hm
    · rintro rfl
      exact ha.not_live_nextStart hv ⟨m, hm⟩
  refine ⟨⟨?_, hsize, fun {w s} hs => ?_⟩, fun {w m k} hm hk _ => ?_⟩
  · rw [placed_registry]
    exact .refl _
  · obtain ⟨⟨m, hm⟩, hend, htype, hc⟩ := typeOf_eq_ok.1 hs
    have hbefore := ha.end_le_nextStart hv hm
    have hge := ha.offset_ge ⟨m, hm⟩
    refine typeOf_eq_ok.2 ⟨⟨m, hsize hm⟩, ?_, ?_, ?_⟩
    · rw [placed_top]
      omega
    · rw [← htype, headerOf_placed_of_live ha hv ⟨m, hm⟩]
    · rw [types, placed_registry]
      exact hc
  · have hbefore := ha.end_le_nextStart hv hm
    exact placed_get (.inl (by omega))

/-- The payload of the new object is zero. -/
theorem byte_placed_new (ha : h.Arena) (hv : v.offset = h.nextStart) (k : Nat) :
    (h.placed v t n).byte v k = 0 := by
  have := h.nextStart_bounds
  rw [byte, placed_get (.inr (by omega)), ha.vacant _ (by omega)]

theorem placed_added (ha : h.Arena) (hv : v.offset = h.nextStart) (hend : v.offset + n ≤ h.limit)
    (ht : h.types.contains t = true) : Added h (h.placed v t n) v t n where
  registry := placed_registry
  objects := placed_objects
  arena := placed_arena ha hv hend
  fresh := ha.not_live_nextStart hv
  typeOf := placed_typeOf ha hv hend ht
  gc := by rw [headerOf_placed ha hv hend, Header.gc_new]
  headers w hw := headerOf_placed_of_live ha hv hw
  queue := placed_barrier
  hits := placed_barrierHits
  zero k _ := byte_placed_new ha hv k
  keeps := placed_keeps ha hv

theorem Added.ages (ha : Added h h' v t n) (hb : h.Arena) : Ages h h' := by
  have hlive {w : Value} (hw : h.Live w) : h'.Live w := ha.keeps.live hw
  refine ⟨fun w => ?_, fun w hw => ?_, fun w hw => ?_⟩
  · rw [old_iff hb, old_iff ha.arena]
    constructor
    · rintro ⟨⟨m, hm⟩, hold⟩
      rw [ha.size?] at hm
      by_cases hwv : w = v
      · rw [hwv, ha.gc] at hold
        cases hold
      · rw [if_neg hwv] at hm
        rw [ha.headers w ⟨m, hm⟩] at hold
        exact ⟨⟨m, hm⟩, hold⟩
    · rintro ⟨hw, hold⟩
      exact ⟨hlive hw, by rw [ha.headers w hw]; exact hold⟩
  · obtain ⟨hw, hyoung⟩ := (young_iff hb).1 hw
    exact (young_iff ha.arena).2 ⟨hlive hw, by rw [ha.headers w hw]; exact hyoung⟩
  · obtain ⟨hw, hbit⟩ := (remembered_iff hb).1 hw
    exact (remembered_iff ha.arena).2 ⟨hlive hw, by rw [ha.headers w hw]; exact hbit⟩

theorem Added.young (ha : Added h h' v t n) : h'.Young v :=
  (young_iff ha.arena).2 ⟨live_of_typeOf ha.typeOf, by rw [ha.gc]; rfl⟩

theorem Added.live {s : TypeRef} (ha : Added h h' v t n) (hw : w ≠ v) (hts : h'.typeOf w = .ok s) :
    h.Live w := by
  obtain ⟨m, hm⟩ := live_of_typeOf hts
  rw [ha.size?, if_neg hw] at hm
  exact ⟨m, hm⟩

/-- The new object holds no reference if it is all zero but for its length. -/
theorem slot_eq_none_of_plain (hplain : hasLength d.kind = false)
    (hzero : ∀ k, (hasLength d.kind = true → refSize ≤ k) → h.byte v k = 0) (k : Nat) :
    h.slot v k = none :=
  slot_eq_none_of_zero (word_eq_zero fun j _ _ => hzero j (by rw [hplain]; nofun))

/-- The new object is no array, as it names no buffer yet. -/
theorem Added.isArray_of {a : Value} {f : ArrayInfo} (ha : Added h h' v t n) (hs : h.Sound)
    (hd : h.types.descriptor t = .ok d)
    (hzero : ∀ k, (hasLength d.kind = true → refSize ≤ k) → h'.byte v k = 0) (hf : h'.IsArray a f) :
    h.IsArray a f := by
  obtain ⟨rank, s, d', r, hts, hd', hkind, -⟩ := hf.type
  have hav : a ≠ v := by
    rintro rfl
    rw [ha.typeOf] at hts
    cases hts
    rw [ha.keeps.descriptor hd] at hd'
    cases hd'
    have hbuffer := hf.buffer
    rw [slot_eq_none_of_plain (by rw [hkind]; rfl) hzero] at hbuffer
    cases hbuffer
  exact hs.isArray_of_live ha.keeps (ha.live hav hts) hf fun _ => id

/-- A heap stays sound when an object is added that is as large as its type wants it, all zero but for
its length. -/
theorem Added.sound (ha : Added h h' v t n) (hs : h.Sound) (hd : h.types.descriptor t = .ok d)
    (hshape : h'.Shaped v t d n)
    (hzero : ∀ k, (hasLength d.kind = true → refSize ≤ k) → h'.byte v k = 0) : h'.Sound := by
  have he := ha.keeps.toExtends
  have harray {a : Value} {f : ArrayInfo} (hf : h'.IsArray a f) : h.IsArray a f :=
    ha.isArray_of hs hd hzero hf
  refine ⟨by rw [ha.registry]; exact hs.registry, ha.arena, ?_, ?_, ?_, ?_⟩
  · intro w m hm
    rw [ha.size?] at hm
    by_cases hw : w = v
    · subst hw
      rw [if_pos rfl] at hm
      cases hm
      exact ⟨t, d, ha.typeOf, he.descriptor hd, hshape⟩
    · rw [if_neg hw] at hm
      obtain ⟨s, d', hts, hd', hshape'⟩ := hs.shaped hm
      refine ⟨s, d', he.typeOf hts, he.descriptor hd', hshape'.congr he fun hlen => .inl ?_⟩
      exact ha.keeps.word_eq hm (by rw [Nat.zero_add]; exact hshape'.le_of_hasLength hlen)
        fun _ _ _ => id
  · intro w s l f hts hl hf hin
    rw [ha.registry] at hl
    by_cases hw : w = v
    · subst hw
      rw [ha.typeOf] at hts
      cases hts
      obtain ⟨d', hd', hdesc⟩ := hs.registry.layouts.describes hl
      rw [show h.registry.table.descriptor t = .ok d from hd] at hd'
      cases hd'
      refine fits_of_none (slot_eq_none_of_plain ?_ hzero f.offset)
      by_contra hlength
      rw [Sound.handle_of_hasLength hdesc (by simpa using hlength)] at hf
      cases hf
    · have hts := hs.typeOf_of_live he (ha.live hw hts) hts
      have hend := hs.registry.layouts.end_le hl hf
      rw [hs.registry.layouts.size_reference hl hf hin] at hend
      exact (hs.fields hts hl hf hin).congr he
        (ha.keeps.slot_eq (hs.size_record hts hl hf) hend fun _ _ _ => id)
  · intro a f hf
    have hsound := hs.arrays (harray hf)
    have hbody := hsound.body.congr he fun j hj =>
      ha.keeps.bytes (hs.size_buffer hsound.body.buffer) hj id
    exact hsound.of_body he (fun k hk => ha.keeps.word_eq (hs.size_array hsound.type)
      (Nat.add_le_add_right hk _) fun _ _ _ => id) hbody
  · exact fun hf hg hbuffer => hs.sharing (harray hf) (harray hg) hbuffer

/-! ## Sizes -/

/-- The payload size that a new object gets, given its number of bytes, elements or dimensions. -/
inductive SizeFor (h : Heap) (d : Descriptor) (extra : Nat) : Nat → Prop
  | bytes (kind : d.kind = .string ∨ d.kind = .buffer) (small : refSize + extra ≤ maxWord) :
      SizeFor h d extra (refSize + extra)
  | slots (kind : d.kind = .simpleVector) (small : refSize * extra + refSize ≤ maxWord) :
      SizeFor h d extra (refSize * extra + refSize)
  | fixed {n : Nat} (plain : hasLength d.kind = false) (concrete : d.kind ≠ .abstract ∧ d.kind ≠ .union)
      (rank : d.kind = .array → ∃ p, d.params.get 1 = .ok p ∧ p.int?.getD (-1) = extra)
      (none : d.kind ≠ .array → extra = 0) (size : h.registry.Sized d.ref n) : SizeFor h d extra n

theorem checkedSize_meets (n : Nat) :
    Meets Learns (checkedSize n) h fun m h' => m = n ∧ n ≤ maxWord ∧ h' = h := by
  unfold checkedSize
  refine Meets.ite (fun hle => Meets.pure ⟨rfl, hle, rfl⟩) fun _ => ?_
  exact Meets.get_bind (Meets.throw _)

theorem payloadSize_meets (d : Descriptor) (extra : Nat) :
    Meets Learns (payloadSize d extra) h fun n h' => h'.SizeFor d extra n := by
  unfold payloadSize
  cases hkind : d.kind
  case string =>
    refine (checkedSize_meets _).mono fun n h' _ => ?_
    rintro ⟨rfl, hle, -⟩
    exact .bytes (.inl hkind) hle
  case buffer =>
    refine (checkedSize_meets _).mono fun n h' _ => ?_
    rintro ⟨rfl, hle, -⟩
    exact .bytes (.inr hkind) hle
  case simpleVector =>
    refine (checkedSize_meets _).mono fun n h' _ => ?_
    rintro ⟨rfl, hle, -⟩
    exact .slots hkind hle
  case array =>
    refine Meets.lift_bind fun p hp => Meets.guard fun hrank => ?_
    refine (sizeOf_meets d.ref).mono fun n h' _ hn => ?_
    exact .fixed (by rw [hkind]; rfl) (by simp [hkind]) (fun _ => ⟨p, hp, Decidable.not_not.1 hrank⟩)
      (fun hne => absurd hkind hne) hn
  case abstract => exact Meets.get_bind (Meets.lift_bind fun _ _ => Meets.throw _)
  case union => exact Meets.get_bind (Meets.lift_bind fun _ _ => Meets.throw _)
  all_goals
    refine Meets.guard fun hextra => (sizeOf_meets d.ref).mono fun n h' _ hn => ?_
    exact .fixed (by rw [hkind]; rfl) (by simp [hkind]) (by simp [hkind])
      (fun _ => Decidable.not_not.1 hextra) hn

/-! ## The whole allocation -/

theorem SizeFor.word_lt (hn : h.SizeFor d extra n) (hlength : hasLength d.kind = true) :
    extra < 0x10000000000000000 ∧ refSize ≤ n := by
  cases hn with
  | bytes kind small => exact ⟨by rw [refSize, maxWord] at small; omega, by omega⟩
  | slots kind small => exact ⟨by rw [refSize, maxWord] at small; omega, by omega⟩
  | fixed plain => rw [plain] at hlength; cases hlength

theorem allocated_added (hs : h.Sound) (hd : h.types.descriptor t = .ok d) (hn : h.SizeFor d extra n)
    (hv : v.offset = h.nextStart) (hend : v.offset + n ≤ h.limit) :
    Added h (h.allocated v d extra n) v t n := by
  have hplaced := placed_added hs.arena hv hend (TypeTable.contains_iff.2 ⟨d, hd⟩)
  have href : d.ref = t := hs.registry.types.ref_eq hd
  unfold allocated
  rw [href]
  split
  · rename_i hlength
    have hsize : (h.placed v t n).size? v = some n := by rw [size?_placed, if_pos rfl]
    have hr : Rewrites (fun w _ => w = v) (h.placed v t n) ((h.placed v t n).putWord v 0 extra) :=
      .putWord hplaced.arena hsize (hn.word_lt hlength).2 fun _ _ _ => rfl
    have hheader {w : Value} (hw : (h.placed v t n).Live w) :
        ((h.placed v t n).putWord v 0 extra).headerOf w = (h.placed v t n).headerOf w :=
      headerOf_put hplaced.arena hsize (by rw [LittleEndian.length_toBytes]; exact (hn.word_lt hlength).2) hw
    refine ⟨hr.registry.trans hplaced.registry, hr.objects.trans hplaced.objects, hr.arena hplaced.arena,
      hplaced.fresh, hr.typeOf_iff.2 hplaced.typeOf, ?_, fun w hw => ?_, put_barrier.trans hplaced.queue,
      (congrArg HeapStats.barrierHits put_stats).trans hplaced.hits, fun k hk => ?_, ?_⟩
    · rw [hheader ⟨n, hsize⟩]
      exact hplaced.gc
    · rw [hheader (hplaced.keeps.live hw), hplaced.headers w hw]
    · rw [byte_putWord_outside (.inr (by rw [refSize] at hk; omega)), hplaced.zero k hk]
    · refine ⟨hplaced.keeps.toExtends.trans hr.extends, fun {w m k} hm hk _ => ?_⟩
      have hw : w ≠ v := by
        rintro rfl
        exact hplaced.fresh ⟨m, hm⟩
      exact (hr.bytes (hplaced.keeps.size? hm) hk hw).trans (hplaced.keeps.bytes hm hk id)
  · exact hplaced

/-- The first word of a new object is its length, if its kind has one. -/
theorem word_allocated (hs : h.Sound) (hd : h.types.descriptor t = .ok d) (hn : h.SizeFor d extra n)
    (hv : v.offset = h.nextStart) (hend : v.offset + n ≤ h.limit) (hlength : hasLength d.kind = true) :
    (h.allocated v d extra n).word v 0 = extra := by
  have hlt := hn.word_lt hlength
  have hplaced := placed_added (t := d.ref) hs.arena hv hend
    (TypeTable.contains_iff.2 ⟨d, by rw [hs.registry.types.ref_eq hd]; exact hd⟩)
  have hreach := hplaced.arena.reach
  rw [placed_top] at hreach
  unfold allocated
  rw [if_pos hlength, word_putWord (by rw [refSize] at hlt; omega) hlt.1]

/-- The rest of a new object is zero. -/
theorem byte_allocated (ha : h.Arena) (hv : v.offset = h.nextStart)
    (hk : hasLength d.kind = true → refSize ≤ k) : (h.allocated v d extra n).byte v k = 0 := by
  unfold allocated
  split
  · rename_i hlength
    have := hk hlength
    rw [byte_putWord_outside (.inr (by rw [refSize] at this; omega)), byte_placed_new ha hv]
  · exact byte_placed_new ha hv k

theorem Sound.allocated (hs : h.Sound) (hd : h.types.descriptor t = .ok d)
    (hn : h.SizeFor d extra n) (hv : v.offset = h.nextStart) (hend : v.offset + n ≤ h.limit) :
    (h.allocated v d extra n).Sound := by
  have hadded := allocated_added hs hd hn hv hend
  refine hadded.sound hs hd ?_ fun k hk => byte_allocated hs.arena hv hk
  have hword (hlength) := word_allocated hs hd hn hv hend hlength
  unfold Shaped
  cases hn with
  | bytes kind small =>
    rcases kind with hkind | hkind <;> rw [hkind] at hword ⊢ <;>
      exact congrArg (refSize + ·) (hword rfl).symm
  | slots kind small =>
    rw [kind] at hword ⊢
    have := hword rfl
    show refSize + refSize * (h.allocated v d extra _).word v 0 ≤ _
    rw [this]
    omega
  | fixed plain concrete _ _ size =>
    obtain ⟨l, hl, rfl⟩ := size
    rw [hs.registry.types.ref_eq hd, ← hadded.registry] at hl
    cases hkind : d.kind <;> rw [hkind] at plain concrete
    case abstract => exact absurd rfl concrete.1
    case union => exact absurd rfl concrete.2
    case string | buffer | simpleVector => cases plain
    all_goals exact ⟨l, hl, rfl⟩

/-! ## Runs -/

/-- The part of an allocation that comes after the size is known. -/
def place (d : Descriptor) (t : TypeRef) (extra size : Nat) : HeapM Value := do
  let start := (← get).nextStart
  reserve (start + size) (min (size + headerSize) maxWord)
  match Value.ofWord? start with
  | none => throw (.invalidTag 0 .nullPayload)
  | some v =>
    enter v size
    writeWord (start - headerSize) (Header.new t GcBits.none).word
    if hasLength d.kind then writeWord start extra
    return v

theorem allocate_eq (t : TypeRef) (extra : Nat) :
    allocate t extra = (do
      let d ← (← get).types.descriptor t
      let size ← payloadSize d extra
      place d t extra size) :=
  rfl

theorem runOn_reserve {stop requested : Nat} (hlimit : stop ≤ h.limit) :
    (reserve stop requested).runOn h = (.ok ⟨⟩, h.reserved stop) := by
  unfold reserve reserved
  rw [Action.runOn_bind_ok (Action.runOn_get h), if_neg (by omega)]
  split <;> rfl

/-- Without room for the object nothing happens. -/
theorem runOn_place_error (hroom : h.limit < h.nextStart + n) :
    (place d t extra n).runOn h = (.error (.outOfMemory (min (n + headerSize) maxWord) h.limit), h) := by
  have hreserve : (reserve (h.nextStart + n) (min (n + headerSize) maxWord)).runOn h =
      (.error (.outOfMemory (min (n + headerSize) maxWord) h.limit), h) := by
    unfold reserve
    rw [Action.runOn_bind_ok (Action.runOn_get h), if_pos hroom]
    rfl
  rw [place, Action.runOn_bind_ok (Action.runOn_get h), Action.runOn_bind_error hreserve]

theorem runOn_place (href : d.ref = t) (hlength : hasLength d.kind = true → refSize ≤ n)
    (hroom : h.nextStart + n ≤ h.limit) :
    ∃ v : Value, v.offset = h.nextStart ∧
      (place d t extra n).runOn h = (.ok v, h.allocated v d extra n) := by
  have hbounds := h.nextStart_bounds
  have hlt : h.limit < 0x10000000000000000 := h.config.maxBytes.toNat_lt
  let v : Value := ⟨h.nextStart, by omega, by omega⟩
  have hword : Value.ofWord? h.nextStart = some v := dif_pos ⟨v.pos, v.lt⟩
  refine ⟨v, rfl, ?_⟩
  have hheader : (writeWord (v.offset - 8) (Header.new t GcBits.none).word).runOn
      ((h.reserved (v.offset + n)).entered v n) = (.ok ⟨⟩, h.placed v t n) := by
    refine runOn_writeHeader ?_
    show v.offset - 8 + 8 ≤ v.offset + n
    show h.nextStart - 8 + 8 ≤ h.nextStart + n
    omega
  rw [place, Action.runOn_bind_ok (Action.runOn_get h), Action.runOn_bind_ok (runOn_reserve hroom),
    hword]
  show (enter v n >>= fun _ => writeWord (v.offset - 8) (Header.new t GcBits.none).word >>= fun _ =>
    (do
      if hasLength d.kind then writeWord v.offset extra
      return v : HeapM Value)).runOn (h.reserved (v.offset + n)) = _
  have henter : (enter v n).runOn (h.reserved (v.offset + n)) =
      (.ok ⟨⟩, (h.reserved (v.offset + n)).entered v n) := rfl
  rw [Action.runOn_bind_ok henter, Action.runOn_bind_ok hheader, allocated, href]
  split
  · rename_i hlen
    have hfit := hlength hlen
    have hwrite : (writeWord v.offset extra).runOn (h.placed v t n) =
        (.ok ⟨⟩, (h.placed v t n).putWord v 0 extra) := by
      refine runOn_writeWord (k := 0) ?_
      rw [placed_top]
      rw [refSize] at hfit
      omega
    rw [Action.runOn_bind_ok hwrite]
    rfl
  · rfl

end TypedHeap.Heap
