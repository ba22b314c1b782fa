import TypedHeap.Proofs.Array.Contents
import TypedHeap.Proofs.Heap.Questions

/-!
# Storing elements

A store writes to one slot, so it replaces one element of the list that an array is, or it is refused
before it has written anything.

* `Heap.Stores`: what an element is once a value was stored there.
* `Rewrites.slot`, `slot_clearedBehind`, `slot_clearedBefore`, `selector`: writes to one slot.

Main results: `set_ends`, `setScalar_ends`.
-/

namespace TypedHeap

open TypedHeap.Action (Ends Fails Yields)
open Heap ArrayObject

variable {h h' : Heap} {a v x : Value} {f : ArrayInfo} {t elem : TypeRef} {i k m n : Nat}
  {xs : List (Option Datum)} {S : Value → Nat → Prop} {bs : List UInt8}

namespace Heap

/-- What an element is once a value was stored there: a reference to the value where references are
stored, else its type and its bits. -/
inductive Stores (h : Heap) (elem : TypeRef) (x : Value) : Datum → Prop
  | reference {n : Nat} (storage : (elementStorage elem).runOn h = (.ok (.references, n), h)) :
      Stores h elem x (.ref x)
  | bits {storage : ElementStorage} {n : Nat} {t : TypeRef} {bs : List UInt8}
      (stored : (elementStorage elem).runOn h = (.ok (storage, n), h)) (inPlace : storage ≠ .references)
      (type : h.typeOf x = .ok t) (payload : h.payload x = .ok bs) : Stores h elem x (.bits t bs)

/-! ## Writing to one slot -/

theorem Rewrites.sound (hr : Rewrites S h h') (hs : h.Sound) : h'.registry.Sound := by
  rw [hr.registry]
  exact hs.registry

theorem Rewrites.slot (hr : Rewrites (Cells f i (i + 1)) h h') (hs : h.Sound) (hb : h.BodySound f)
    (hi : i < f.capacity) (hlo : f.slotOffset i ≤ k) (hhi : k + bs.length ≤ f.slotOffset i + f.flags.slotSize) :
    Rewrites (Cells f i (i + 1)) h (h'.put f.buffer (refSize + k) bs) := by
  have hend := hb.slot_end hi
  have hnext := f.slotOffset_succ i
  refine hr.trans (.put (hr.arena hs.arena) ((hr.size?_eq _).trans (hs.size_buffer hb.buffer)) (by omega) ?_)
  exact fun j hj hj' => ⟨rfl, j - refSize, by omega, .inl ⟨by omega, by omega⟩⟩

theorem Rewrites.selector {s : UInt8} (hr : Rewrites (Cells f i (i + 1)) h h') (hs : h.Sound)
    (hb : h.BodySound f) (hi : i < f.capacity) (hstorage : f.flags.storage = .selected) :
    Rewrites (Cells f i (i + 1)) h (h'.put f.buffer (refSize + f.selectorOffset i) [s]) := by
  have hend : f.selectorOffset i + 1 ≤ h.word f.buffer 0 := hb.selector_end hstorage hi
  refine hr.trans (.put (hr.arena hs.arena) ((hr.size?_eq _).trans (hs.size_buffer hb.buffer)) ?_ ?_)
  · rw [List.length_singleton]
    omega
  · intro j hj hj'
    rw [List.length_singleton] at hj'
    obtain rfl : j = refSize + f.selectorOffset i := by omega
    exact ⟨rfl, _, rfl, .inr ⟨hstorage, Nat.le_refl _, Nat.lt_succ_self _⟩⟩

/-- A slot is cleared behind the bytes that are written. -/
theorem Rewrites.slot_clearedBehind (hr : Rewrites (Cells f i (i + 1)) h h') (hs : h.Sound) (hb : h.BodySound f)
    (hi : i < f.capacity) (hn : bs.length = n) (hle : n ≤ f.flags.slotSize) :
    Rewrites (Cells f i (i + 1)) h ((h'.put f.buffer (refSize + f.slotOffset i) bs).put f.buffer
      (refSize + f.slotOffset i + n) (List.replicate (f.flags.slotSize - n) 0)) := by
  rw [Nat.add_assoc refSize]
  refine (hr.slot hs hb hi (Nat.le_refl _) ?_).slot hs hb hi (Nat.le_add_right _ _) ?_
  · rw [hn]
    exact Nat.add_le_add_left hle _
  · rw [List.length_replicate]
    omega

/-- A slot is cleared before bytes are written. -/
theorem Rewrites.slot_clearedBefore (hr : Rewrites (Cells f i (i + 1)) h h') (hs : h.Sound) (hb : h.BodySound f)
    (hi : i < f.capacity) (hle : bs.length ≤ f.flags.slotSize) :
    Rewrites (Cells f i (i + 1)) h ((h'.put f.buffer (refSize + f.slotOffset i)
      (List.replicate f.flags.slotSize 0)).put f.buffer (refSize + f.slotOffset i) bs) := by
  refine (hr.slot hs hb hi (Nat.le_refl _) ?_).slot hs hb hi (Nat.le_refl _) (Nat.add_le_add_left hle _)
  rw [List.length_replicate]

/-- How elements are stored is found out again as long as types and layouts are remembered. -/
theorem BodySound.runOn_storage (hb : h.BodySound f) (hs : h'.registry.Sound) (he : h.Extends h') :
    (elementStorage f.elem).runOn h' = (.ok (f.flags.storage, f.flags.slotSize), h') :=
  runOn_elementStorage hs (hb.stored.extends he.registry)

/-- An object that is bits is no buffer. -/
theorem Sound.ne_buffer_of_isBits {l : Layout} (hs : h.Sound) (ht : h.typeOf x = .ok t)
    (hl : h.registry.layouts.find? t = some l) (hbits : l.isBits = true)
    (hv : h.typeOf v = .ok Builtin.buffer) : x ≠ v := by
  rintro rfl
  rw [hv] at ht
  cases ht
  obtain ⟨d, hd, hdesc⟩ := hs.registry.layouts.describes hl
  have hd : h.types.descriptor Builtin.buffer = .ok d := hd
  rw [hs.descriptor_buffer] at hd
  cases hd
  cases (Sound.kind_of_isBits hdesc hbits).1

/-- A value keeps its bits while it is stored. -/
theorem Rewrites.stores {l : Layout} (hr : Rewrites (Cells f i (i + 1)) h h') (hs : h.Sound)
    (hb : h.BodySound f) (hstorage : f.flags.storage ≠ .references) (ht : h.typeOf x = .ok t)
    (hl : h.registry.layouts.find? t = some l) (hbits : l.isBits = true) :
    h'.Stores f.elem x (.bits t (h.memory.window x.offset l.size)) := by
  have hn := hs.size_bits ht hl hbits
  have hne := hs.ne_buffer_of_isBits ht hl hbits hb.buffer
  have hend : x.offset + l.size ≤ h'.top := by
    rw [hr.top]
    exact hs.end_le_top hn
  have hwindow : h'.memory.window x.offset l.size = h.memory.window x.offset l.size :=
    Memory.window_congr fun k hk => hr.bytes hn hk fun hin => hne hin.1
  refine .bits (hb.runOn_storage (hr.sound hs) hr.extends) hstorage (hr.extends.typeOf ht) ?_
  exact bind_eq_ok.2 ⟨l.size, objectSize_eq_ok.2 (hr.extends.size? hn), by rw [bytes_eq hend, hwindow]⟩

/-- What slots stand for does not depend on symbols. -/
theorem Holds.withSymbols (hx : h.Holds f xs) (table : SymbolTable) :
    ({ h with symbols := table } : Heap).Holds f xs where
  length := hx.length
  shows i d hd := by
    cases hx.shows i d hd with
    | reference storage =>
      have hslot : ({ h with symbols := table } : Heap).slot f.buffer (refSize + f.slotOffset i) =
          h.slot f.buffer (refSize + f.slotOffset i) := slot_congr fun _ _ _ => rfl
      rw [← hslot]
      exact .reference storage
    | bits bits =>
      refine .bits ?_
      cases bits with
      | flat storage same size => exact .flat storage same size
      | member storage union selector size => exact .member storage union selector size

end Heap

namespace ArrayObject

/-! ## Storing values -/

theorem setReference_yields (hs : h.Sound) (ha : h.IsArray a f) (hx : h.Holds f xs) (hi : i < f.length)
    (hstorage : f.flags.storage = .references) (hv : h.Live x) :
    Yields (storeRef f.buffer (f.buffer.offset + (refSize + f.slotOffset i)) x) h fun _ h' =>
      Rewrites (Cells f i (i + 1)) h h' ∧ h'.symbols = h.symbols ∧ h'.Stores f.elem x (.ref x) ∧
        h'.Holds f (xs.set i (some (.ref x))) := by
  have hb := (hs.arrays ha).body
  have hle := hb.length_le
  have hslot := hb.slotSize_references hstorage
  have hend := slot_end_le hs ha hi
  have hreach := hs.arena.reach
  rw [hslot] at hend
  have hput : Rewrites (Cells f i (i + 1)) h (h.putWord f.buffer (refSize + f.slotOffset i) x.offset) :=
    (Rewrites.refl _ h).slot hs hb (by omega) (Nat.le_refl _)
      (Nat.le_of_eq (by rw [LittleEndian.length_toBytes, hslot]))
  have hguarded (S : Value → Nat → Prop) := Rewrites.guarded (S := S) (hput.arena hs.arena) f.buffer x
  have hr := hput.trans (hguarded _)
  have hrun := runOn_storeRef_live (hput.arena hs.arena) (hput.live_iff.2 (live_of_typeOf hb.buffer))
    (hput.live_iff.2 hv) hend
  refine .of_ok hrun ⟨hr, ?_, ?_, hx.set hs hb hr.keeps hi ?_⟩
  · rw [symbols_guarded (hput.arena hs.arena), putWord, put_symbols]
  · have hstored := hb.runOn_storage (hr.sound hs) hr.extends
    rw [hstorage] at hstored
    exact .reference hstored
  · have hstored : (h.putWord f.buffer (refSize + f.slotOffset i) x.offset).slot f.buffer
        (refSize + f.slotOffset i) = some x := slot_putWord (x := some x) (by omega)
    have hroom := hb.slot_end (Nat.lt_of_lt_of_le hi hle)
    have hsize := (hput.size?_eq _).trans (hs.size_buffer hb.buffer)
    have hkept := (hguarded fun _ _ => False).keeps.slot_eq hsize (k := refSize + f.slotOffset i) (by omega)
      fun _ _ _ => id
    have hshows : ((h.putWord f.buffer (refSize + f.slotOffset i) x.offset).guarded f.buffer x).Shows f i _ :=
      .reference hstorage
    rwa [hkept, hstored] at hshows

theorem setReference_ends (hs : h.Sound) (ha : h.IsArray a f) (hx : h.Holds f xs) (hi : i < f.length)
    (hstorage : f.flags.storage = .references) (hv : h.Live x) {E : Heap → Prop} :
    Ends (storeRef f.buffer (f.buffer.offset + (refSize + f.slotOffset i)) x) h
      (fun _ h' => h'.symbols = h.symbols ∧ ∃ d, h'.Stores f.elem x d ∧ h'.Holds f (xs.set i (some d))) E := by
  obtain ⟨_, h', hrun, -, hsymbols, hstores, hholds⟩ := setReference_yields hs ha hx hi hstorage hv
  exact .of_ok hrun ⟨hsymbols, _, hstores, hholds⟩

theorem setFlat_ends (hs : h.Sound) (ha : h.IsArray a f) (hx : h.Holds f xs) (hi : i < f.length)
    (hstorage : f.flags.storage = .flat) (ht : h.typeOf x = .ok f.elem) {E : Heap → Prop} :
    Ends (copyBytes x.offset f.flags.slotSize (f.buffer.offset + (refSize + f.slotOffset i))) h
      (fun _ h' => h'.symbols = h.symbols ∧ ∃ d, h'.Stores f.elem x d ∧ h'.Holds f (xs.set i (some d))) E := by
  have hb := (hs.arrays ha).body
  have hle := hb.length_le
  have hend := slot_end_le hs ha hi
  have hreach := hs.arena.reach
  obtain ⟨l, hl, hbits, hsize⟩ := hb.flat_bits hstorage
  have hsrc := hs.end_le_top (hs.size_bits ht hl hbits)
  rw [hsize] at hsrc
  have hlen : (h.memory.window x.offset f.flags.slotSize).length = f.flags.slotSize :=
    Memory.length_window _ _ _
  have hr := (Rewrites.refl _ h).slot hs hb (Nat.lt_of_lt_of_le hi hle) (Nat.le_refl _)
    (Nat.le_of_eq (congrArg (f.slotOffset i + ·) hlen))
  have hstores := hr.stores hs hb (by rw [hstorage]; nofun) ht hl hbits
  rw [hsize] at hstores
  refine .of_ok (runOn_copyBytes hsrc hend) ⟨put_symbols, _, hstores, hx.set hs hb hr.keeps hi ?_⟩
  exact .of_window (.flat hstorage rfl rfl) (window_put (by omega) hlen)

/-- The selector that is written says which member an element is. -/
theorem elementBits_selector {d : Descriptor} (hs : h.Sound) (hb : h.BodySound f) (hi : i < f.capacity)
    (hstorage : f.flags.storage = .selected) (hd : h.types.descriptor f.elem = .ok d)
    (hm : d.memberTypes[m]? = some t) (hn : h.registry.Sized t n)
    (hr : Rewrites (Cells f i (i + 1)) h h') :
    (h'.put f.buffer (refSize + f.selectorOffset i) [UInt8.ofNat m]).ElementBits f i t n := by
  have hroom : f.selectorOffset i + 1 ≤ h.word f.buffer 0 := hb.selector_end hstorage hi
  have htop := hs.end_le_top (hs.size_buffer hb.buffer)
  have hreach := hs.arena.reach
  have hlength := hr.length
  have hfit : f.buffer.offset + (refSize + f.selectorOffset i) + [UInt8.ofNat m].length ≤ h'.memory.length := by
    rw [List.length_singleton]
    omega
  have hselector : (h'.put f.buffer (refSize + f.selectorOffset i) [UInt8.ofNat m]).byte f.buffer
      (refSize + f.selectorOffset i) = UInt8.ofNat m := byte_put_inside (j := 0) hfit Nat.zero_lt_one
  have he := (hr.selector (s := UInt8.ofNat m) hs hb hi hstorage).extends
  refine .member hstorage (he.descriptor hd) ?_ (hn.extends he.registry)
  rw [hselector, hb.toNat_selector hstorage hd hm]
  exact hm

/-- The bits of a member of a union and its selector make up an element. -/
theorem shows_member {d : Descriptor} (hs : h.Sound) (hb : h.BodySound f) (hi : i < f.capacity)
    (hstorage : f.flags.storage = .selected) (hd : h.types.descriptor f.elem = .ok d)
    (hm : d.memberTypes[m]? = some t) (hn : h.registry.Sized t n)
    (hr : Rewrites (Cells f i (i + 1)) h h')
    (hwindow : h'.memory.window (f.buffer.offset + (refSize + f.slotOffset i)) n = bs) :
    (h'.put f.buffer (refSize + f.selectorOffset i) [UInt8.ofNat m]).Shows f i (some (.bits t bs)) := by
  obtain ⟨-, -, -, -, hle⟩ := hb.member_sized hstorage hd (List.mem_of_getElem? hm) hn
  have hbefore := f.slot_end_le hi
  have hbehind : f.slotOffset f.capacity ≤ f.selectorOffset i := f.slotOffset_le_selectorOffset (Nat.le_refl _)
  have hout : refSize + f.slotOffset i + n ≤ refSize + f.selectorOffset i := by omega
  exact .of_window (elementBits_selector hs hb hi hstorage hd hm hn hr)
    ((window_put_outside (.inl hout)).trans hwindow)

theorem setMember_ends {d : Descriptor} (hs : h.Sound) (ha : h.IsArray a f) (hx : h.Holds f xs)
    (hi : i < f.length) (hstorage : f.flags.storage = .selected) (hd : h.types.descriptor f.elem = .ok d)
    (hm : d.memberTypes[m]? = some t) (hn : h.registry.Sized t n) (ht : h.typeOf x = .ok t)
    {E : Heap → Prop} :
    Ends (do
      copyBytes x.offset n (f.buffer.offset + (refSize + f.slotOffset i))
      clearBytes (f.buffer.offset + (refSize + f.slotOffset i + n)) (f.flags.slotSize - n)
      writeBytes (f.buffer.offset + (refSize + f.selectorOffset i)) [UInt8.ofNat m] : HeapM Unit) h
      (fun _ h' => h'.symbols = h.symbols ∧ ∃ d, h'.Stores f.elem x d ∧ h'.Holds f (xs.set i (some d))) E := by
  have hb := (hs.arrays ha).body
  have hi' := Nat.lt_of_lt_of_le hi hb.length_le
  have hend := slot_end_le hs ha hi
  have hreach := hs.arena.reach
  obtain ⟨l, hl, hbits, hsize, hle⟩ := hb.member_sized hstorage hd (List.mem_of_getElem? hm) hn
  subst hsize
  have hsrc := hs.end_le_top (hs.size_bits ht hl hbits)
  have hlen : (h.memory.window x.offset l.size).length = l.size := Memory.length_window _ _ _
  have hr₁ := (Rewrites.refl _ h).slot_clearedBehind hs hb hi' hlen hle
  have hr := hr₁.selector (s := UInt8.ofNat m) hs hb hi' hstorage
  refine .of_ok (runOn_setMember hs ha hi hstorage hle hsrc) ⟨by rw [put_symbols, put_symbols, put_symbols], _,
    hr.stores hs hb (by rw [hstorage]; nofun) ht hl hbits, hx.set hs hb hr.keeps hi ?_⟩
  refine shows_member hs hb hi' hstorage hd hm hn hr₁ ?_
  rw [window_put_outside (.inl (by omega)), window_put (by omega) hlen]

/-- A value is stored, or the list is what it was. -/
theorem set_ends (hs : h.Sound) (ha : h.IsArray a f) (hx : h.Holds f xs) (i : Nat) (x : Value) :
    Ends (set a i x) h (fun _ h' => i < f.length ∧ h'.symbols = h.symbols ∧
      ∃ d, h'.Stores f.elem x d ∧ h'.Holds f (xs.set i (some d))) fun h' => h'.Holds f xs := by
  unfold set
  refine Ends.look_bind hx fun g hg => Ends.lift_bind hx fun _ hi => Ends.look_bind hx fun t ht => ?_
  refine Ends.look_bind hx fun start hstart => ?_
  cases ha.unique (isArray_of_info hs.registry hg)
  have hi := ArrayInfo.checkIndex_eq_ok.1 hi
  obtain ⟨-, rfl⟩ := Buffer.start_eq_ok.1 hstart
  simp only [Nat.add_assoc]
  cases hstorage : f.flags.storage with
  | references =>
    refine Ends.look_bind hx fun fits _ => Ends.ite (fun _ => ?_) fun _ => ?_
    · exact Ends.look_bind hx fun _ => nofun
    · exact (setReference_ends hs ha hx hi hstorage (live_of_typeOf ht)).mono
        (fun _ _ hdone => ⟨hi, hdone⟩) fun _ => id
  | flat =>
    refine Ends.ite (fun _ => Ends.look_bind hx fun _ => nofun) fun hsame => ?_
    rw [Decidable.not_not.1 hsame] at ht
    exact (setFlat_ends hs ha hx hi hstorage ht).mono (fun _ _ hdone => ⟨hi, hdone⟩) fun _ => id
  | selected =>
    refine Ends.look_bind hx fun selector hselector => ?_
    have hb := (hs.arrays ha).body
    have hlearned {h' : Heap} (hl : h.Learns h') : h'.Holds f xs :=
      hx.keeps hs hb (hl.keeps fun _ _ => False) fun _ => id
    refine Ends.bind ((Ends.of_meets (sizeOf_meets t)).mono (fun _ _ => id) fun _ => hlearned) fun n h₁ hn => ?_
    obtain ⟨hl, hn⟩ := hn
    obtain ⟨d, m, hd, hm, rfl⟩ := selectorOf_eq_ok hselector
    have hk := hl.keeps fun _ _ => False
    have ha₁ := hs.isArray_kept ha hk fun _ => id
    rw [← Nat.add_assoc refSize]
    refine (setMember_ends (hs.learns hl) ha₁ (hlearned hl) hi hstorage (hk.descriptor hd) hm hn
      (hk.typeOf ht)).mono (fun _ h' hdone => ⟨hi, hdone.1.trans ?_, hdone.2⟩) fun _ => id
    obtain ⟨r, -, rfl⟩ := hl
    rfl

/-- Nothing is computed on the way to a store that could overflow: what is stored in place has a layout. -/
theorem set_ne_overflow (hs : h.Sound) (a : Value) (i : Nat) (x : Value) : Fails (set a i x) h (· ≠ .overflow) := by
  have hmismatch {g : ArrayInfo} {t : TypeRef} {y : HeapM Unit} : Fails (do
      Action.look fun h => throw (h.types.mismatch g.elem t)
      y) h (· ≠ .overflow) := Fails.look_bind (.throw nofun) fun _ => nofun
  unfold set
  refine Fails.look_bind ((hs.info_raises a).mono fun e he => ?_) fun f hf => ?_
  · rcases he with rfl | ⟨_, rfl⟩ | ⟨_, _, rfl⟩ | ⟨rfl, -⟩ <;> nofun
  have ha := isArray_of_info hs.registry hf
  have hb := (hs.arrays ha).body
  obtain ⟨xs, hx⟩ := exists_holds hb
  refine Fails.lift_bind (Raises.ite (fun _ => .ok) fun _ => .error nofun) fun _ hi => ?_
  refine Fails.look_bind ((hs.typeOf_raises x).mono fun e he => by rw [he]; nofun) fun t ht => ?_
  refine Fails.look_bind (Raises.bind ((hs.expectType_raises _ _).mono fun _ he => he.ne_overflow) fun _ _ => .pure)
    fun start hstart => ?_
  have hi := ArrayInfo.checkIndex_eq_ok.1 hi
  obtain ⟨-, rfl⟩ := Buffer.start_eq_ok.1 hstart
  simp only [Nat.add_assoc]
  cases hstorage : f.flags.storage with
  | references =>
    refine Fails.look_bind ((h.types.isa_fails t f.elem).mono fun _ he => he.ne_overflow) fun fits _ => ?_
    refine Fails.ite (fun _ => hmismatch) fun _ => ?_
    exact (Yields.of_ends (setReference_ends hs ha hx hi hstorage (live_of_typeOf ht))).fails
  | flat =>
    refine Fails.ite (fun _ => hmismatch) fun hsame => ?_
    rw [Decidable.not_not.1 hsame] at ht
    exact (Yields.of_ends (setFlat_ends hs ha hx hi hstorage ht)).fails
  | selected =>
    refine Fails.look_bind (Raises.bind ?_ fun members _ => ?_) fun selector hselector => ?_
    · exact Raises.bind ((h.types.descriptor_fails f.elem).mono fun _ he => he.ne_overflow) fun _ _ => .pure
    · split
      · exact .pure
      · exact .throw nofun
    obtain ⟨d, m, hd, hm, rfl⟩ := selectorOf_eq_ok hselector
    obtain ⟨l, hl, -, -⟩ := hb.member_bits hstorage hd (List.mem_of_getElem? hm)
    have hsized : h.registry.Sized t l.size := ⟨l, hl, rfl⟩
    refine Fails.bind_ran (.of_runOn (runOn_sizeOf hs.registry hsized) .ok) fun n h' hrun => ?_
    obtain ⟨hn, rfl⟩ := Prod.mk.inj ((runOn_sizeOf hs.registry hsized).symm.trans hrun)
    cases hn
    rw [← Nat.add_assoc refSize]
    exact (Yields.of_ends (setMember_ends hs ha hx hi hstorage hd hm hsized ht)).fails

/-! ## Storing scalars -/

section Scalars

variable {s : ScalarKind} {c : s.Carrier} {l : Layout}

/-- The bytes of a scalar are made in the symbol table. -/
theorem encode_ends (s : ScalarKind) (c : s.Carrier) (h : Heap) :
    Ends (encode s c) h (fun bs h' => ∃ table, (s.encode c).runOn h.symbols = (.ok bs, table) ∧
      h' = { h with symbols := table }) fun h' => ∃ table, h' = { h with symbols := table } := by
  refine ⟨fun bs h' hrun => ?_, fun e h' hrun => ?_⟩
  · rw [runOn_encode] at hrun
    obtain ⟨hbs, rfl⟩ := Prod.mk.inj hrun
    exact ⟨_, Prod.ext hbs rfl, rfl⟩
  · rw [runOn_encode] at hrun
    obtain ⟨-, rfl⟩ := Prod.mk.inj hrun
    exact ⟨_, rfl⟩

theorem setScalarFlat_yields {table : SymbolTable} (hs : h.Sound) (ha : h.IsArray a f) (hx : h.Holds f xs)
    (hi : i < f.length) (hstorage : f.flags.storage = .flat) (hc : f.elem = s.type)
    (hencode : (s.encode c).runOn h.symbols = (.ok bs, table)) :
    Yields (writeBytes (f.buffer.offset + (refSize + f.slotOffset i)) bs) { h with symbols := table } fun _ h' =>
      Rewrites (Cells f i (i + 1)) h h' ∧ h'.symbols = table ∧
        h'.Holds f (xs.set i (some (.bits s.type bs))) := by
  have hb := (hs.arrays ha).body
  have hend := slot_end_le hs ha hi
  have hreach := hs.arena.reach
  obtain ⟨l, hl, -, hsize⟩ := hb.flat_bits hstorage
  rw [hc] at hl
  have hlen : bs.length = f.flags.slotSize := by
    rw [length_encode hencode, ← hsize, (hs.scalar_size hl).2]
  have hr := (Rewrites.withSymbols (Cells f i (i + 1)) h table).slot hs hb
    (Nat.lt_of_lt_of_le hi hb.length_le) (Nat.le_refl _) (Nat.le_of_eq (congrArg (f.slotOffset i + ·) hlen))
  refine .of_ok (runOn_writeBytes (by rw [hlen]; exact hend)) ⟨hr, put_symbols, ?_⟩
  refine hx.set hs hb hr.keeps hi (.of_window (.flat hstorage hc rfl) (window_put ?_ hlen))
  rw [hlen]
  exact Nat.le_trans hend hreach

theorem setScalarFlat_ends (hs : h.Sound) (ha : h.IsArray a f) (hx : h.Holds f xs) (hi : i < f.length)
    (hstorage : f.flags.storage = .flat) (hc : f.elem = s.type) :
    Ends (storeScalar (f.buffer.offset + (refSize + f.slotOffset i)) s c) h
      (fun _ h' => ∃ d, Datum.Encodes h' s c d ∧ h'.Holds f (xs.set i (some d))) fun h' => h'.Holds f xs := by
  unfold storeScalar
  refine Ends.bind ((encode_ends s c h).mono (fun _ _ => id) ?_) fun bs h₁ hencode => ?_
  · rintro _ ⟨table, rfl⟩
    exact hx.withSymbols table
  · obtain ⟨table, hencode, rfl⟩ := hencode
    obtain ⟨_, h', hrun, -, hsymbols, hholds⟩ := setScalarFlat_yields hs ha hx hi hstorage hc hencode
    exact .of_ok hrun ⟨_, .bits (by rw [hsymbols]; exact hencode), hholds⟩

theorem setScalarMember_ends {d : Descriptor} (hs : h.Sound) (ha : h.IsArray a f) (hx : h.Holds f xs)
    (hi : i < f.length) (hstorage : f.flags.storage = .selected) (hd : h.types.descriptor f.elem = .ok d)
    (hm : d.memberTypes[m]? = some s.type) :
    Ends (do
      let bs ← encode s c
      clearBytes (f.buffer.offset + (refSize + f.slotOffset i)) f.flags.slotSize
      writeBytes (f.buffer.offset + (refSize + f.slotOffset i)) bs
      writeBytes (f.buffer.offset + (refSize + f.selectorOffset i)) [UInt8.ofNat m] : HeapM Unit) h
      (fun _ h' => ∃ d, Datum.Encodes h' s c d ∧ h'.Holds f (xs.set i (some d))) fun h' => h'.Holds f xs := by
  have hb := (hs.arrays ha).body
  have hi' := Nat.lt_of_lt_of_le hi hb.length_le
  have hend := slot_end_le hs ha hi
  have hreach := hs.arena.reach
  obtain ⟨l, hl, -, hle⟩ := hb.member_bits hstorage hd (List.mem_of_getElem? hm)
  refine Ends.bind ((encode_ends s c h).mono (fun _ _ => id) ?_) fun bs h₁ hencode => ?_
  · rintro _ ⟨table, rfl⟩
    exact hx.withSymbols table
  · obtain ⟨table, hencode, rfl⟩ := hencode
    have hsize : bs.length = l.size := by rw [length_encode hencode, (hs.scalar_size hl).2]
    rw [← hsize] at hle
    have hr₁ := (Rewrites.withSymbols (Cells f i (i + 1)) h table).slot_clearedBefore hs hb hi' hle
    have hr := hr₁.selector (s := UInt8.ofNat m) hs hb hi' hstorage
    have hrun := runOn_setScalarMember (u := UInt8.ofNat m) (hs.of_symbols table) (hs.isArray_symbols ha table)
      hi hstorage hle
    refine .of_ok hrun ⟨.bits s.type bs, .bits (by simpa only [put_symbols] using hencode),
      hx.set hs hb hr.keeps hi ?_⟩
    refine shows_member hs hb hi' hstorage hd hm ⟨l, hl, rfl⟩ hr₁ (window_put ?_ hsize)
    rw [length_put]
    exact Nat.le_trans (Nat.add_le_add_left hle _) (Nat.le_trans hend hreach)

/-- A scalar is stored, or the list is what it was. -/
theorem setScalar_ends (hs : h.Sound) (ha : h.IsArray a f) (hx : h.Holds f xs) (i : Nat) (s : ScalarKind)
    (c : s.Carrier) :
    Ends (setScalar a i s c) h
      (fun _ h' => i < f.length ∧ ∃ d, Datum.Encodes h' s c d ∧ h'.Holds f (xs.set i (some d)))
      fun h' => h'.Holds f xs := by
  unfold setScalar
  refine Ends.look_bind hx fun g hg => Ends.lift_bind hx fun _ hi => ?_
  refine Ends.look_bind hx fun start hstart => ?_
  cases ha.unique (isArray_of_info hs.registry hg)
  have hi := ArrayInfo.checkIndex_eq_ok.1 hi
  have hb := (hs.arrays ha).body
  obtain ⟨-, rfl⟩ := Buffer.start_eq_ok.1 hstart
  simp only [Nat.add_assoc]
  cases hstorage : f.flags.storage with
  | references =>
    have hnew : Ready (fun w _ => ¬h.Live w) h := ⟨hs, fun hv _ => hv⟩
    have hkept {h' : Heap} (hp : Path (fun w _ => ¬h.Live w) h h') : h'.Holds f xs :=
      hx.keeps hs hb (hp.keeps hs) fun _ hdead => hdead (live_of_typeOf hb.buffer)
    refine Ends.bind ((Ends.of_meets (Box.new_meets hnew s c)).mono (fun _ _ => id) fun _ hp => hkept hp)
      fun box h₁ hbox => ?_
    obtain ⟨hp, hfresh, ht, hencodes⟩ := hbox
    have hs₁ := hp.sound hs
    have ha₁ := hs.isArray_kept ha (hp.keeps hs) fun _ hdead => hdead ha.live
    have hset := set_ends hs₁ ha₁ (hkept hp) i box
    have hpath : Action.Meets (Path fun w _ => w = f.buffer) (set a i box) h₁ fun _ _ => True :=
      set_meets hs₁ (fun hg _ => by rw [ha₁.unique hg]) i box
    refine ⟨fun _ h' hrun => ?_, hset.failure⟩
    have hpath := hpath.kept
    rw [hrun] at hpath
    obtain ⟨-, hsymbols, d, hstores, hholds⟩ := hset.answer _ h' hrun
    refine ⟨hi, d, ?_, hholds⟩
    have hs' := hpath.sound hs₁
    have hk := hpath.keeps hs₁
    have hstorage' := hb.runOn_storage hs'.registry ((hp.keeps hs).toExtends.trans hk.toExtends)
    rw [hstorage] at hstorage'
    cases hstores with
    | reference =>
      cases hencodes with
      | box encode type payload =>
        refine .box (by rw [hsymbols]; exact encode) (hk.typeOf type) ?_
        rw [hs₁.payload_kept hs' hk (live_of_typeOf type) fun _ heq => ?_, payload]
        exact hfresh (heq ▸ live_of_typeOf hb.buffer)
    | bits stored inPlace =>
      rw [hstorage'] at stored
      cases stored
      exact absurd rfl inPlace
  | flat =>
    refine Ends.ite (fun _ => Ends.look_bind hx fun _ => nofun) fun hsame => ?_
    exact (setScalarFlat_ends hs ha hx hi hstorage (Decidable.not_not.1 hsame)).mono
      (fun _ _ hdone => ⟨hi, hdone⟩) fun _ => id
  | selected =>
    refine Ends.look_bind hx fun selector hselector => ?_
    obtain ⟨d, m, hd, hm, rfl⟩ := selectorOf_eq_ok hselector
    exact (setScalarMember_ends hs ha hx hi hstorage hd hm).mono (fun _ _ hdone => ⟨hi, hdone⟩) fun _ => id

end Scalars

end ArrayObject

end TypedHeap
