import TypedHeap.Proofs.Heap.Allocation

/-!
# Heaps that differ in the collector's state

The collector's flags of an object are the lower half of one byte in front of its payload. The upper half
belongs to the type of the object, so a mutator reads the byte, too, but throws the flags away.

* `Heap.FlagByte`: where flags are.
* `Heap.Alike`: heaps that differ in flags, in the queue of the barrier and in how often it queued, at most.
* `Heap.Alike.typeOf_eq`, `bytes_eq`, `readWord_eq`, …: questions that both answer alike.
* `Heap.Alike.write`, `reserved`, `entered`: what keeps heaps alike when it is done to both.
* `Heap.OnlyFlags`: actions that change nothing but the collector's state.

Main results: `Alike.headerOf_typeBits`, `Alike.bytes_eq`, `alike_setFlags`, `onlyFlags_takeRemembered`.
-/

namespace TypedHeap

/-! ## Bytes -/

theorem Memory.window_succ (m : Memory) (off n : Nat) :
    m.window off (n + 1) = m.get off :: m.window (off + 1) n := by
  simp [Memory.window, List.range_succ_eq_map, Function.comp_def, Nat.add_comm 1, Nat.add_assoc]

/-- Writing back what was there, but for the first byte. -/
theorem Memory.get_write_first (m : Memory) (off n i : Nat) (c : UInt8) :
    (m.write off (c :: m.window (off + 1) n)).get i = if i = off ∧ i < m.length then c else m.get i := by
  rw [Memory.get_write]
  by_cases hin : off ≤ i ∧ i < m.length
  · obtain ⟨j, rfl⟩ := Nat.exists_eq_add_of_le hin.1
    rw [if_pos hin, Nat.add_sub_cancel_left]
    cases j with
    | zero =>
      rw [if_pos ⟨Nat.add_zero off, hin.2⟩]
      rfl
    | succ j =>
      rw [if_neg (by omega), List.getElem?_cons_succ]
      by_cases hj : j < n
      · rw [List.getElem?_eq_getElem (by rwa [Memory.length_window]), Memory.getElem_window, Nat.add_assoc,
          Nat.add_comm 1]
        rfl
      · rw [List.getElem?_eq_none (by rw [Memory.length_window]; omega)]
        rfl
  · rw [if_neg hin, if_neg (by omega)]

/-- A number whose first byte is split off. -/
theorem LittleEndian.toBytes_cons {b w n : Nat} (hb : b < 256) :
    toBytes (w + 1) (b + 256 * n) = UInt8.ofNat b :: toBytes w n := by
  rw [toBytes, Nat.add_mul_mod_self_left, Nat.mod_eq_of_lt hb, Nat.add_mul_div_left _ _ (by decide),
    Nat.div_eq_of_lt hb, Nat.zero_add]

namespace Heap

variable {h k l : Heap} {v w p c : Value} {n m j off : Nat} {t : TypeRef} {bs : List UInt8}

/-- A header is its first byte and seven more. -/
theorem word_headerOf (h : Heap) (v : Value) : (h.headerOf v).word = (h.memory.get (v.offset - 8)).toNat +
    256 * LittleEndian.ofBytes (h.memory.window (v.offset - 8 + 1) 7) := by
  rw [headerOf, Memory.window_succ, LittleEndian.ofBytes]

/-! ## Heaps alike -/

/-- The byte in front of a payload that has the collector's flags in it. -/
def FlagByte (h : Heap) (i : Nat) : Prop := ∃ v, h.Live v ∧ i + 8 = v.offset

/-- Two heaps with the same objects, the same types and the same bytes, but for the collector's flags, the queue
of the barrier and the number of times that it queued something. -/
structure Alike (h k : Heap) : Prop where
  arena : h.Arena
  registry : k.registry = h.registry
  symbols : k.symbols = h.symbols
  config : k.config = h.config
  top : k.top = h.top
  objects : k.objects = h.objects
  count : k.stats.objects = h.stats.objects
  allocated : k.stats.allocatedBytes = h.stats.allocatedBytes
  capacity : k.stats.capacityBytes = h.stats.capacityBytes
  length : k.memory.length = h.memory.length
  /-- Of a byte with flags the upper half is the same. -/
  upper : ∀ i, (k.memory.get i).toNat / 16 = (h.memory.get i).toNat / 16
  byte : ∀ i, ¬h.FlagByte i → k.memory.get i = h.memory.get i

/-- Flags do not lie in payloads. -/
theorem Arena.not_flagByte (ha : h.Arena) (hn : h.size? v = some n) (hj : j < n) : ¬h.FlagByte (v.offset + j) := by
  rintro ⟨w, ⟨m, hm⟩, heq⟩
  by_cases hvw : v = w
  · subst hvw
    omega
  · have := ha.disjoint hn hm hvw
    omega

/-- Of a header only the first byte has flags in it. -/
theorem Arena.not_flagByte_header (ha : h.Arena) (hv : h.Live v) (hj : j < 7) :
    ¬h.FlagByte (v.offset - 8 + 1 + j) := by
  rintro ⟨w, hw, heq⟩
  have hge := ha.offset_ge hv
  have hv := ha.offset_mod hv
  have hw := ha.offset_mod hw
  omega

/-- Flags lie below the end of the last object. -/
theorem Arena.not_flagByte_of_le (ha : h.Arena) (hj : h.top ≤ j) : ¬h.FlagByte j := by
  rintro ⟨w, hw, heq⟩
  have hend := ha.header_end_le hw
  have hge := ha.offset_ge hw
  omega

theorem flagByte_congr (hobjects : k.objects = h.objects) (i : Nat) : k.FlagByte i ↔ h.FlagByte i := by
  simp only [FlagByte, live_congr hobjects]

namespace Alike

theorem refl (ha : h.Arena) : Alike h h :=
  ⟨ha, rfl, rfl, rfl, rfl, rfl, rfl, rfl, rfl, rfl, fun _ => rfl, fun _ _ => rfl⟩

variable (hk : Alike h k)

include hk

theorem live_iff : k.Live v ↔ h.Live v := live_congr hk.objects

theorem types_eq : k.types = h.types := by
  rw [types, types, hk.registry]

theorem limit_eq : k.limit = h.limit := by
  rw [limit, limit, hk.config]

theorem nextStart_eq : k.nextStart = h.nextStart := by
  rw [nextStart, nextStart, hk.top]

theorem arena_right : k.Arena where
  aligned := by rw [hk.objects]; exact hk.arena.aligned
  ordered := by rw [hk.objects]; exact hk.arena.ordered
  below := by rw [hk.objects, hk.top]; exact hk.arena.below
  reach := by rw [hk.top, hk.length]; exact hk.arena.reach
  capacity := by rw [hk.capacity, hk.length]; exact hk.arena.capacity
  limit := by rw [hk.length, hk.limit_eq]; exact hk.arena.limit
  vacant i hi := by
    rw [hk.top] at hi
    rw [hk.byte i (hk.arena.not_flagByte_of_le hi), hk.arena.vacant i hi]
  count := by rw [hk.count, hk.objects]; exact hk.arena.count
  allocated := by rw [hk.allocated, hk.objects]; exact hk.arena.allocated

theorem symm : Alike k h where
  arena := hk.arena_right
  registry := hk.registry.symm
  symbols := hk.symbols.symm
  config := hk.config.symm
  top := hk.top.symm
  objects := hk.objects.symm
  count := hk.count.symm
  allocated := hk.allocated.symm
  capacity := hk.capacity.symm
  length := hk.length.symm
  upper i := (hk.upper i).symm
  byte i hi := (hk.byte i fun hf => hi ((flagByte_congr hk.objects i).2 hf)).symm

theorem trans (hl : Alike k l) : Alike h l where
  arena := hk.arena
  registry := hl.registry.trans hk.registry
  symbols := hl.symbols.trans hk.symbols
  config := hl.config.trans hk.config
  top := hl.top.trans hk.top
  objects := hl.objects.trans hk.objects
  count := hl.count.trans hk.count
  allocated := hl.allocated.trans hk.allocated
  capacity := hl.capacity.trans hk.capacity
  length := hl.length.trans hk.length
  upper i := (hl.upper i).trans (hk.upper i)
  byte i hi := (hl.byte i fun hf => hi ((flagByte_congr hk.objects i).1 hf)).trans (hk.byte i hi)

/-! ### Questions -/

theorem window_eq (hn : h.size? v = some n) (hend : j + m ≤ n) :
    k.memory.window (v.offset + j) m = h.memory.window (v.offset + j) m := by
  refine Memory.window_congr fun i hi => ?_
  rw [Nat.add_assoc]
  exact hk.byte _ (hk.arena.not_flagByte hn (by omega))

/-- What a header says about the type is no matter of flags. -/
theorem headerOf_typeBits (hv : h.Live v) : (k.headerOf v).typeBits = (h.headerOf v).typeBits := by
  have hrest : k.memory.window (v.offset - 8 + 1) 7 = h.memory.window (v.offset - 8 + 1) 7 :=
    Memory.window_congr fun j hj => hk.byte _ (hk.arena.not_flagByte_header hv hj)
  have hfirst := hk.upper (v.offset - 8)
  simp only [Header.typeBits, word_headerOf, hrest]
  omega

theorem checkRange_eq (off len : Nat) : k.checkRange off len = h.checkRange off len := by
  rw [checkRange, checkRange, hk.top]

theorem objectSize_eq (v : Value) : k.objectSize v = h.objectSize v := by
  rw [objectSize, objectSize, hk.objects]

theorem typeOf_eq (v : Value) : k.typeOf v = h.typeOf v := by
  by_cases hv : h.Live v
  · have hheader : h.header v = .ok (h.headerOf v) := header_eq_ok.2 ⟨hv, hk.arena.header_end_le hv, rfl⟩
    have hheader' : k.header v = .ok (k.headerOf v) :=
      header_eq_ok.2 ⟨hk.live_iff.2 hv, hk.arena_right.header_end_le (hk.live_iff.2 hv), rfl⟩
    have htype : (k.headerOf v).type? = (h.headerOf v).type? := by
      rw [Header.type?, Header.type?, hk.headerOf_typeBits hv]
    have hbind (x : Header) (f : Header → Except Error TypeRef) : (Except.ok x >>= f) = f x := rfl
    rw [typeOf, typeOf, hheader, hheader', hbind, hbind, htype, hk.types_eq]
  · -- The table has no entry for it, and says so in both heaps.
    cases hsize : h.objectSize v with
    | ok n => exact absurd ⟨n, objectSize_eq_ok.1 hsize⟩ hv
    | error e =>
      rw [typeOf, typeOf, header, header, hk.objectSize_eq, hsize]
      rfl

theorem descriptor_eq (v : Value) : k.descriptor v = h.descriptor v := by
  rw [descriptor, descriptor, hk.typeOf_eq, hk.types_eq]

theorem expectType_eq (v : Value) (t : TypeRef) : k.expectType v t = h.expectType v t := by
  rw [expectType, expectType, hk.typeOf_eq, hk.types_eq]

theorem isOfType_eq (v : Value) (t : TypeRef) : k.isOfType v t = h.isOfType v t := by
  rw [isOfType, isOfType, hk.typeOf_eq]

theorem isa_eq (v : Value) (t : TypeRef) : k.isa v t = h.isa v t := by
  rw [isa, isa, hk.typeOf_eq, hk.types_eq]

/-- Bytes of a payload are read alike. -/
theorem bytes_eq (hn : h.size? v = some n) (hend : j + m ≤ n) :
    k.bytes (v.offset + j) m = h.bytes (v.offset + j) m := by
  rw [bytes, bytes, hk.checkRange_eq, hk.window_eq hn hend]

theorem readWord_eq (hn : h.size? v = some n) (hend : j + 8 ≤ n) :
    k.readWord (v.offset + j) = h.readWord (v.offset + j) := by
  rw [readWord, readWord, hk.bytes_eq hn hend]

theorem readRef_eq (hn : h.size? v = some n) (hend : j + 8 ≤ n) :
    k.readRef (v.offset + j) = h.readRef (v.offset + j) := by
  rw [readRef, readRef, hk.readWord_eq hn hend]

theorem payload_eq (v : Value) : k.payload v = h.payload v := by
  rw [payload, payload, hk.objectSize_eq]
  cases hsize : h.objectSize v with
  | error e => rfl
  | ok n => exact hk.bytes_eq (j := 0) (objectSize_eq_ok.1 hsize) (by omega)

end Alike

/-! ## The same done to both -/

theorem Arena.write (ha : h.Arena) (hend : off + bs.length ≤ h.top) :
    ({ h with memory := h.memory.write off bs } : Heap).Arena where
  aligned := ha.aligned
  ordered := ha.ordered
  below := ha.below
  reach := by rw [Memory.length_write]; exact ha.reach
  capacity := by rw [Memory.length_write]; exact ha.capacity
  limit := by rw [Memory.length_write]; exact ha.limit
  vacant i hi := by
    show (h.memory.write off bs).get i = 0
    rw [Memory.get_write_of_not_mem _ (.inr (Nat.le_trans hend hi)), ha.vacant i hi]
  count := ha.count
  allocated := ha.allocated

theorem Arena.reserved {stop : Nat} (ha : h.Arena) (hstop : stop ≤ h.limit) : (h.reserved stop).Arena := by
  obtain ⟨-, hlimit, hlength⟩ := reserved_length hstop ha.limit
  have htop : (h.reserved stop).top = h.top := by
    unfold Heap.reserved
    split <;> rfl
  refine ⟨?_, ?_, ?_, ?_, reserved_capacity hstop ha.capacity, ?_, fun i hi => ?_, ?_, ?_⟩
  · rw [reserved_objects]; exact ha.aligned
  · rw [reserved_objects]; exact ha.ordered
  · rw [reserved_objects, htop]; exact ha.below
  · rw [htop]; exact Nat.le_trans ha.reach hlength
  · rw [Heap.limit, reserved_config]; exact hlimit
  · rw [htop] at hi
    rw [reserved_get, ha.vacant i hi]
  · rw [reserved_count, reserved_objects]; exact ha.count
  · rw [reserved_allocatedBytes, reserved_objects]; exact ha.allocated

/-- An object may be entered where there is room for it and for its header. -/
theorem Arena.entered (ha : h.Arena) (hstart : h.top + 8 ≤ v.offset) (hmod : v.offset % 16 = 0)
    (hend : v.offset + n ≤ h.memory.length) : (h.entered v n).Arena where
  aligned := List.forall_mem_cons.2 ⟨⟨v.pos, hmod⟩, ha.aligned⟩
  ordered := List.pairwise_cons.2 ⟨fun p hp => by
    have hbelow := ha.below p hp
    show p.1 + p.2 + 8 ≤ v.offset
    omega, ha.ordered⟩
  below := List.forall_mem_cons.2 ⟨Nat.le_refl _, fun p hp => by
    have hbelow := ha.below p hp
    show p.1 + p.2 ≤ v.offset + n
    omega⟩
  reach := hend
  capacity := ha.capacity
  limit := ha.limit
  vacant i hi := ha.vacant i (by
    have hi : v.offset + n ≤ i := hi
    omega)
  count := congrArg (· + 1) ha.count
  allocated := by
    show h.stats.allocatedBytes + (n + headerSize) = (((v.offset, n) :: h.objects).map fun p => p.2 + 8).sum
    rw [List.map_cons, List.sum_cons, ha.allocated, headerSize]
    omega

namespace Alike

variable (hk : Alike h k)

include hk

theorem write (hend : off + bs.length ≤ h.top) :
    Alike { h with memory := h.memory.write off bs } { k with memory := k.memory.write off bs } where
  arena := hk.arena.write hend
  registry := hk.registry
  symbols := hk.symbols
  config := hk.config
  top := hk.top
  objects := hk.objects
  count := hk.count
  allocated := hk.allocated
  capacity := hk.capacity
  length := by rw [Memory.length_write, Memory.length_write]; exact hk.length
  upper i := by
    simp only [Memory.get_write, hk.length]
    split
    · cases bs[i - off]? with
      | none => exact hk.upper i
      | some b => rfl
    · exact hk.upper i
  byte i hi := by
    simp only [Memory.get_write, hk.length, hk.byte i hi]

theorem withRegistry (r : Registry) : Alike { h with registry := r } { k with registry := r } :=
  ⟨⟨hk.arena.aligned, hk.arena.ordered, hk.arena.below, hk.arena.reach, hk.arena.capacity, hk.arena.limit,
      hk.arena.vacant, hk.arena.count, hk.arena.allocated⟩,
    rfl, hk.symbols, hk.config, hk.top, hk.objects, hk.count, hk.allocated, hk.capacity, hk.length, hk.upper, hk.byte⟩

theorem withSymbols (table : SymbolTable) : Alike { h with symbols := table } { k with symbols := table } :=
  ⟨⟨hk.arena.aligned, hk.arena.ordered, hk.arena.below, hk.arena.reach, hk.arena.capacity, hk.arena.limit,
      hk.arena.vacant, hk.arena.count, hk.arena.allocated⟩,
    hk.registry, rfl, hk.config, hk.top, hk.objects, hk.count, hk.allocated, hk.capacity, hk.length, hk.upper, hk.byte⟩

theorem reserved {stop : Nat} (hstop : stop ≤ h.limit) : Alike (h.reserved stop) (k.reserved stop) := by
  have ha := hk.arena.reserved hstop
  unfold Heap.reserved at ha ⊢
  rw [hk.length, hk.limit_eq]
  split
  · rename_i hshort
    rw [if_pos hshort] at ha
    refine ⟨ha, hk.registry, hk.symbols, hk.config, hk.top, hk.objects, hk.count, hk.allocated, rfl, ?_, hk.upper,
      hk.byte⟩
    rw [Memory.length_grow, Memory.length_grow, hk.length]
  · exact hk

theorem entered (hstart : h.top + 8 ≤ v.offset) (hmod : v.offset % 16 = 0)
    (hend : v.offset + n ≤ h.memory.length) : Alike (h.entered v n) (k.entered v n) where
  arena := hk.arena.entered hstart hmod hend
  registry := hk.registry
  symbols := hk.symbols
  config := hk.config
  top := rfl
  objects := congrArg ((v.offset, n) :: ·) hk.objects
  count := congrArg (· + 1) hk.count
  allocated := congrArg (· + (n + headerSize)) hk.allocated
  capacity := hk.capacity
  length := hk.length
  upper := hk.upper
  byte i hi := hk.byte i fun ⟨w, hw, heq⟩ => hi ⟨w, by
    obtain ⟨m, hm⟩ := hw
    simp only [Live, size?_of_cons (show (h.entered v n).objects = (v.offset, n) :: h.objects from rfl)]
    by_cases hwv : w = v
    · exact ⟨n, if_pos hwv⟩
    · exact ⟨m, by rw [if_neg hwv, hm]⟩, heq⟩

end Alike

/-! ## The collector's state -/

/-- Other flags leave the heap as it was, for all but the collector. -/
theorem alike_setFlags (ha : h.Arena) (hv : h.Live v) (g : GcBits) : Alike h (h.setFlags v g) := by
  have hge := ha.offset_ge hv
  have hend := ha.header_end_le hv
  have hreach := ha.reach
  have hg := g.toNat_lt
  let c := UInt8.ofNat ((h.memory.get (v.offset - 8)).toNat / 16 * 16 + g.toNat)
  have hlt : (h.memory.get (v.offset - 8)).toNat < 256 := (h.memory.get _).toNat_lt
  -- The new word is the old one but for the lower half of its first byte.
  have hnew : LittleEndian.toBytes 8 ((h.headerOf v).withGc g).word =
      c :: h.memory.window (v.offset - 8 + 1) 7 := by
    have hrest := LittleEndian.toBytes_ofBytes (h.memory.window (v.offset - 8 + 1) 7)
    rw [Memory.length_window] at hrest
    have hword : ((h.headerOf v).withGc g).word = ((h.memory.get (v.offset - 8)).toNat / 16 * 16 + g.toNat) +
        256 * LittleEndian.ofBytes (h.memory.window (v.offset - 8 + 1) 7) := by
      simp only [Header.withGc, Header.typeBits, word_headerOf]
      omega
    rw [hword, LittleEndian.toBytes_cons (by omega), hrest]
  have hget (i : Nat) : (h.setFlags v g).memory.get i =
      if i = v.offset - 8 ∧ i < h.memory.length then c else h.memory.get i := by
    rw [setFlags, setHeader, putHeader_memory, hnew, Memory.get_write_first]
  have hr : Rewrites (fun _ _ => False) h (h.setFlags v g) := .setFlags ha hv g
  refine ⟨ha, hr.registry, ?_, hr.config, hr.top, hr.objects, hr.count, hr.allocated, hr.capacity, hr.length,
    fun i => ?_, fun i hi => ?_⟩
  · rw [setFlags, setHeader, putHeader_symbols]
  · rw [hget]
    split
    · rename_i hi
      rw [hi.1, UInt8.toNat_ofNat']
      omega
    · rfl
  · rw [hget, if_neg fun heq => hi ⟨v, hv, by omega⟩]

theorem alike_withBarrier (ha : h.Arena) (b : Barrier) (hits : Nat) :
    Alike h { h with barrier := b, stats := { h.stats with barrierHits := hits } } :=
  ⟨ha, rfl, rfl, rfl, rfl, rfl, rfl, rfl, rfl, rfl, fun _ => rfl, fun _ _ => rfl⟩

theorem alike_guarded (ha : h.Arena) (p c : Value) : Alike h (h.guarded p c) := by
  rcases guarded_cases ha p c with heq | ⟨hp, heq⟩
  · rw [heq]
    exact .refl ha
  · have hflags := alike_setFlags ha hp { (h.headerOf p).gc with remembered := true }
    rw [heq]
    exact ⟨ha, hflags.registry, hflags.symbols, hflags.config, hflags.top, hflags.objects, rfl, rfl, rfl,
      hflags.length, hflags.upper, hflags.byte⟩

/-- An action that changes no more than flags and what the barrier keeps, from wherever it starts. -/
def OnlyFlags {α : Type} (x : HeapM α) : Prop := ∀ h : Heap, h.Arena → Alike h (x.runOn h).2

namespace OnlyFlags

variable {α β : Type}

theorem pure (a : α) : OnlyFlags (Pure.pure a) := fun _ ha => .refl ha

theorem bind {x : HeapM β} {f : β → HeapM α} (hx : OnlyFlags x) (hf : ∀ b, OnlyFlags (f b)) : OnlyFlags (x >>= f) := by
  intro h ha
  have hstep := hx h ha
  rcases hrun : x.runOn h with ⟨e | b, h'⟩
  · rw [hrun] at hstep
    rwa [Action.runOn_bind_error hrun]
  · rw [hrun] at hstep
    rw [Action.runOn_bind_ok hrun]
    exact hstep.trans (hf b h' hstep.arena_right)

theorem look {f : Heap → Except Error α} : OnlyFlags (Action.look f) := fun _ ha => .refl ha

theorem forM {f : β → HeapM PUnit} (hf : ∀ b, OnlyFlags (f b)) (bs : List β) : OnlyFlags (bs.forM f) := by
  induction bs with
  | nil => exact pure _
  | cons b bs ih => exact bind (hf b) fun _ => ih

end OnlyFlags

theorem onlyFlags_setGcBits (v : Value) (g : GcBits) : OnlyFlags (setGcBits v g) := by
  intro h ha
  by_cases hv : h.Live v
  · rw [runOn_setFlags ha hv]
    exact alike_setFlags ha hv g
  · cases hheader : h.header v with
    | ok x => exact absurd (header_eq_ok.1 hheader).1 hv
    | error e =>
      rw [setGcBits, Action.runOn_bind_error (by rw [Action.runOn_look, hheader])]
      exact .refl ha

theorem onlyFlags_writeBarrier (parent child : Value) : OnlyFlags (writeBarrier parent child) :=
  fun _ ha => alike_guarded ha parent child

theorem onlyFlags_drainRoots : OnlyFlags drainRoots := fun h ha => alike_withBarrier ha _ h.stats.barrierHits

theorem onlyFlags_takeRemembered : OnlyFlags takeRemembered :=
  .bind onlyFlags_drainRoots fun roots => .bind
    (.forM (fun v => .bind .look fun _ => onlyFlags_setGcBits v _) roots) fun _ => .pure roots

end Heap

end TypedHeap
