import TypedHeap.Array.Element
import TypedHeap.Proofs.Object.Box

/-!
# Elements of arrays

* `Heap.Sound.runOn_info`, `runOn_start`, `ArrayInfo.runOn_checkIndex`: what is asked before an element is touched.
* `Heap.ElementBits`: an element is bits of a type.
* `ArrayObject.get_meets`, `getValue_meets`, `getScalar_meets`: reading an element.
* `ArrayObject.set_meets`, `setScalar_meets`: an element is changed under checks, or nothing is.
-/

namespace TypedHeap

open TypedHeap.Action (Meets)
open Heap

variable {h h' : Heap} {a b v x : Value} {f : ArrayInfo} {t : TypeRef} {i k n : Nat}
  {S : Value → Nat → Prop} {bs : List UInt8}

/-! ## Reading -/

theorem Buffer.start_eq_ok : start h v = .ok n ↔ h.typeOf v = .ok Builtin.buffer ∧ v.offset + refSize = n := by
  unfold start
  rw [bind_eq_ok]
  constructor
  · rintro ⟨_, hv, hn⟩
    exact ⟨expectType_eq_ok.1 hv, pure_eq_ok.1 hn⟩
  · rintro ⟨hv, hn⟩
    exact ⟨⟨⟩, expectType_eq_ok.2 hv, pure_eq_ok.2 hn⟩

theorem ArrayInfo.checkIndex_eq_ok : f.checkIndex i = .ok ⟨⟩ ↔ i < f.length := by
  unfold checkIndex
  split
  · exact ⟨fun _ => ‹_›, fun _ => rfl⟩
  · exact ⟨nofun, fun hi => absurd hi ‹_›⟩

/-- An array tells about itself, and where its elements begin. -/
theorem Heap.Sound.runOn_info (hs : h.Sound) (ha : h.IsArray a f) :
    (Action.look (ArrayObject.info · a)).runOn h = (.ok f, h) := by
  rw [Action.runOn_look, hs.info_iff.2 ha]

theorem Heap.Sound.runOn_start (hs : h.Sound) (ha : h.IsArray a f) :
    (Action.look (Buffer.start · f.buffer)).runOn h = (.ok (f.buffer.offset + refSize), h) := by
  rw [Action.runOn_look, Buffer.start_eq_ok.2 ⟨(hs.arrays ha).body.buffer, rfl⟩]

theorem ArrayInfo.runOn_checkIndex (hi : i < f.length) (h : Heap) :
    (liftM (f.checkIndex i) : HeapM Unit).runOn h = (.ok ⟨⟩, h) := by
  rw [Action.runOn_lift, checkIndex_eq_ok.2 hi]

theorem ArrayInfo.runOn_checkIndex_error (hi : f.length ≤ i) (h : Heap) :
    (liftM (f.checkIndex i) : HeapM Unit).runOn h = (.error (.indexOutOfRange .element i f.length), h) := by
  rw [Action.runOn_lift, checkIndex, if_neg (Nat.not_lt.2 hi)]

/-- The element of an array at an index is bits of a type, `n` bytes of them. -/
inductive Heap.ElementBits (h : Heap) (f : ArrayInfo) (i : Nat) (t : TypeRef) (n : Nat) : Prop
  | flat (storage : f.flags.storage = .flat) (same : f.elem = t) (size : f.flags.slotSize = n)
  | member {d : Descriptor} (storage : f.flags.storage = .selected)
      (union : h.types.descriptor f.elem = .ok d)
      (selector : d.memberTypes[(h.byte f.buffer (refSize + f.selectorOffset i)).toNat]? = some t)
      (size : h.registry.Sized t n)

namespace Heap.ElementBits

/-- Such bits may be stored where a value of the type is. -/
theorem provides (he : h.ElementBits f i t n) (ha : h.IsArray a f) (hi : i < f.length) :
    h.Provides t (h.memory.window (f.buffer.offset + (refSize + f.slotOffset i)) n) := by
  cases he with
  | flat storage same size =>
    subst size
    exact .element ha hi storage same
  | member storage union selector size => exact .member ha hi storage union selector size

theorem layout (he : h.ElementBits f i t n) (hb : h.BodySound f) :
    ∃ l, h.registry.layouts.find? t = some l ∧ l.isBits = true ∧ l.size = n ∧ n ≤ f.flags.slotSize := by
  cases he with
  | flat storage same size =>
    subst same size
    obtain ⟨l, hl, hbits, hsize⟩ := hb.flat_bits storage
    exact ⟨l, hl, hbits, hsize, Nat.le_refl _⟩
  | member storage union selector size => exact hb.member_sized storage union (List.mem_of_getElem? selector) size

/-- An element is bits of one type. -/
theorem unique {s : TypeRef} {m : Nat} (he : h.ElementBits f i t n) (he' : h.ElementBits f i s m) : s = t ∧ m = n := by
  cases he with
  | flat storage same size =>
    cases he' with
    | flat _ same' size' => exact ⟨same'.symm.trans same, size'.symm.trans size⟩
    | member storage' =>
      rw [storage] at storage'
      cases storage'
  | member storage union selector size =>
    cases he' with
    | flat storage' =>
      rw [storage] at storage'
      cases storage'
    | member _ union' selector' size' =>
      cases union.symm.trans union'
      cases selector.symm.trans selector'
      obtain ⟨l, hl, rfl⟩ := size
      obtain ⟨l', hl', rfl⟩ := size'
      cases hl.symm.trans hl'
      exact ⟨rfl, rfl⟩

/-- As long as nobody writes to the buffer, they stay what they are. -/
theorem keeps (he : h.ElementBits f i t n) (hs : h.Sound) (ha : h.IsArray a f) (hi : i < f.length)
    (hk : Keeps S h h') (hS : ∀ j, ¬S f.buffer j) : h'.ElementBits f i t n := by
  cases he with
  | flat storage same size => exact .flat storage same size
  | member storage union selector size =>
    have hb := (hs.arrays ha).body
    have hselector : f.selectorOffset i < h.word f.buffer 0 :=
      hb.selector_end storage (Nat.le_trans hi hb.length_le)
    refine .member storage (hk.descriptor union) ?_ (size.extends hk.registry)
    rw [hk.bytes (hs.size_buffer hb.buffer) (Nat.add_lt_add_left hselector _) (hS _)]
    exact selector

end Heap.ElementBits

namespace ArrayObject

theorem selected_eq_ok (hs : selected h f (v.offset + k) = .ok t) :
    ∃ d, h.types.descriptor f.elem = .ok d ∧ d.memberTypes[(h.byte v k).toNat]? = some t := by
  unfold selected at hs
  obtain ⟨bs, hbytes, hs⟩ := bind_eq_ok.1 hs
  obtain ⟨_, hmembers, hs⟩ := bind_eq_ok.1 hs
  obtain ⟨d, hd, hmembers⟩ := bind_eq_ok.1 hmembers
  cases hmembers
  obtain ⟨-, rfl⟩ := bytes_eq_ok.1 hbytes
  split at hs
  · rename_i s hmember
    cases hs
    exact ⟨d, hd, hmember⟩
  · cases hs

theorem get_meets (hs : h.Sound) (a : Value) (i : Nat) :
    Meets Learns (get a i) h fun d h' => ∀ {t bs}, d = .bits t bs →
      ∃ f, h'.IsArray a f ∧ i < f.length ∧ h'.ElementBits f i t bs.length := by
  unfold get
  refine Meets.look_bind fun f hf => Meets.lift_bind fun _ hi => Meets.look_bind fun start hstart => ?_
  have ha := isArray_of_info hs.registry hf
  have hi := ArrayInfo.checkIndex_eq_ok.1 hi
  obtain ⟨-, rfl⟩ := Buffer.start_eq_ok.1 hstart
  cases hstorage : f.flags.storage with
  | references =>
    refine Meets.look_bind fun r _ => ?_
    cases r with
    | some x => exact Meets.pure nofun
    | none => exact Meets.throw _
  | flat =>
    refine Meets.look_bind fun bytes hbytes => Meets.pure fun heq => ?_
    obtain ⟨-, rfl⟩ := bytes_eq_ok.1 hbytes
    cases heq
    exact ⟨f, ha, hi, .flat hstorage rfl (Memory.length_window _ _ _).symm⟩
  | selected =>
    refine Meets.look_bind fun t ht => Meets.bind (sizeOf_meets t) fun n h₁ hl hn => ?_
    refine Meets.look_bind fun bytes hbytes => Meets.pure fun heq => ?_
    obtain ⟨-, rfl⟩ := bytes_eq_ok.1 hbytes
    cases heq
    have hk := hl.keeps fun _ _ => False
    rw [Nat.add_assoc] at ht
    obtain ⟨d, hd, hmember⟩ := selected_eq_ok ht
    rw [← hl.byte_eq] at hmember
    refine ⟨f, hs.isArray_kept ha hk fun _ => id, hi, .member hstorage (hk.descriptor hd) hmember ?_⟩
    rw [Memory.length_window]
    exact hn

theorem getScalar_meets (hs : h.Sound) (k : ScalarKind) (a : Value) (i : Nat) :
    Meets Learns (getScalar k a i) h fun _ _ => True :=
  Meets.bind (get_meets hs a i) fun _ _ _ _ => Meets.look fun _ _ => trivial

/-- The value of an element is the reference in it, or a new box with the bits in it. -/
theorem getValue_meets (hr : Ready S h) (a : Value) (i : Nat) :
    Meets (Path S) (getValue a i) h fun _ _ => True := by
  unfold getValue
  refine learns_bind (get_meets hr.sound a i) fun d h₁ hl₁ hd => ?_
  have hr₁ := hr.learns hl₁
  cases d with
  | ref x => exact Meets.pure trivial
  | bits t bytes =>
    obtain ⟨f, ha, hi, hbits⟩ := hd rfl
    refine Meets.look_bind fun g hg => Meets.look_bind fun start hstart => ?_
    cases ha.unique (isArray_of_info hr₁.sound.registry hg)
    obtain ⟨-, rfl⟩ := Buffer.start_eq_ok.1 hstart
    refine Meets.bind (allocate_meets hr₁ t 0) fun box h₂ hp₂ hbox => ?_
    have hs₂ := (hr₁.along hp₂).sound
    have hbits := hbits.keeps hr₁.sound ha hi hbox.kept fun _ => id
    have ha := hr₁.sound.isArray_kept ha hbox.kept fun _ => id
    obtain ⟨l, hl, hisBits, hsize, -⟩ := hbits.layout (hs₂.arrays ha).body
    have hend := hs₂.end_le_top (hs₂.size_bits hbox.type hl hisBits)
    rw [Nat.add_assoc]
    have hcopy : Meets (Path S) (copyBytes (f.buffer.offset + (refSize + f.slotOffset i)) bytes.length
        box.offset) h₂ fun _ h' => h' = h₂.put box 0
          (h₂.memory.window (f.buffer.offset + (refSize + f.slotOffset i)) bytes.length) :=
      copyBytes_meets (k := 0) (by omega) (.bits hbox.type hl hisBits
        (by rw [Memory.length_window, hsize]) (hbits.provides ha hi) (hr₁.fresh hbox.fresh))
    exact Meets.bind hcopy fun _ _ _ _ => Meets.pure trivial

/-! ## Changing -/

theorem selectorOf_eq_ok {b : UInt8} (hb : selectorOf h f t = .ok b) :
    ∃ d m, h.types.descriptor f.elem = .ok d ∧ d.memberTypes[m]? = some t ∧ b = UInt8.ofNat m := by
  unfold selectorOf at hb
  obtain ⟨_, hmembers, hb⟩ := bind_eq_ok.1 hb
  obtain ⟨d, hd, hmembers⟩ := bind_eq_ok.1 hmembers
  cases hmembers
  split at hb
  · rename_i m hm
    cases hb
    obtain ⟨hlt, hget, -⟩ := List.idxOf?_eq_some_iff.1 hm
    exact ⟨d, m, hd, List.getElem?_eq_some_iff.2 ⟨hlt, hget⟩, rfl⟩
  · cases hb

/-- A slot in use ends inside the buffer, and so does its selector. -/
theorem slot_end_le (hs : h.Sound) (ha : h.IsArray a f) (hi : i < f.length) :
    f.buffer.offset + (refSize + f.slotOffset i) + f.flags.slotSize ≤ h.top := by
  have hb := (hs.arrays ha).body
  have h1 := hb.slot_end (Nat.lt_of_lt_of_le hi hb.length_le)
  have h2 := hs.end_le_top (hs.size_buffer hb.buffer)
  omega

theorem selector_end_le (hs : h.Sound) (ha : h.IsArray a f) (hi : i < f.length)
    (hstorage : f.flags.storage = .selected) :
    f.buffer.offset + (refSize + f.selectorOffset i) + 1 ≤ h.top := by
  have hb := (hs.arrays ha).body
  have h1 : f.selectorOffset i + 1 ≤ h.word f.buffer 0 :=
    hb.selector_end hstorage (Nat.le_trans hi hb.length_le)
  have h2 := hs.end_le_top (hs.size_buffer hb.buffer)
  omega

theorem setReference_meets {s : TypeRef} (hs : h.Sound) (ha : h.IsArray a f) (hi : i < f.length)
    (hstorage : f.flags.storage = .references) (hx : h.typeOf x = .ok s)
    (hisa : h.types.isa s f.elem = .ok true) (hS : ∀ j, S f.buffer j) :
    Meets (Path S) (storeRef f.buffer (f.buffer.offset + (refSize + f.slotOffset i)) x) h
      fun _ _ => True := by
  have hend := slot_end_le hs ha hi
  rw [(hs.arrays ha).body.slotSize_references hstorage] at hend
  exact (storeRef_meets hend (.elementRef ha hi hstorage hx hisa hS)).mono fun _ _ _ _ => trivial

theorem setFlat_meets (hs : h.Sound) (ha : h.IsArray a f) (hi : i < f.length)
    (hstorage : f.flags.storage = .flat) (hx : h.typeOf x = .ok f.elem) (hS : ∀ j, S f.buffer j) :
    Meets (Path S) (copyBytes x.offset f.flags.slotSize (f.buffer.offset + (refSize + f.slotOffset i))) h
      fun _ _ => True := by
  refine (copyBytes_meets (slot_end_le hs ha hi) ?_).mono fun _ _ _ _ => trivial
  exact .elementBits ha hi hstorage (Memory.length_window _ _ _) (.object hx (TypeTable.isa_self _ _)) hS

/-- The bits of a member, zeros behind them, and the selector. -/
theorem runOn_setMember {s : UInt8} (hs : h.Sound) (ha : h.IsArray a f) (hi : i < f.length)
    (hstorage : f.flags.storage = .selected) (hle : n ≤ f.flags.slotSize) (hsrc : x.offset + n ≤ h.top) :
    (do
      copyBytes x.offset n (f.buffer.offset + (refSize + f.slotOffset i))
      clearBytes (f.buffer.offset + (refSize + f.slotOffset i + n)) (f.flags.slotSize - n)
      writeBytes (f.buffer.offset + (refSize + f.selectorOffset i)) [s] : HeapM Unit).runOn h =
      (.ok ⟨⟩, ((h.put f.buffer (refSize + f.slotOffset i) (h.memory.window x.offset n)).put f.buffer
        (refSize + f.slotOffset i + n) (List.replicate (f.flags.slotSize - n) 0)).put f.buffer
          (refSize + f.selectorOffset i) [s]) := by
  have hend := slot_end_le hs ha hi
  have hselector := selector_end_le hs ha hi hstorage
  rw [Action.runOn_bind_ok (runOn_copyBytes hsrc (by omega)),
    Action.runOn_bind_ok (runOn_clearBytes (by rw [put_top]; omega)),
    runOn_writeBytes (by simp only [put_top, List.length_singleton]; omega)]

theorem setMember_meets {d : Descriptor} {m n : Nat} (hs : h.Sound) (ha : h.IsArray a f)
    (hi : i < f.length) (hstorage : f.flags.storage = .selected)
    (hd : h.types.descriptor f.elem = .ok d) (hm : d.memberTypes[m]? = some t)
    (hn : h.registry.Sized t n) (hx : h.typeOf x = .ok t) (hS : ∀ j, S f.buffer j) :
    Meets (Path S) (do
      copyBytes x.offset n (f.buffer.offset + (refSize + f.slotOffset i))
      clearBytes (f.buffer.offset + (refSize + f.slotOffset i + n)) (f.flags.slotSize - n)
      writeBytes (f.buffer.offset + (refSize + f.selectorOffset i)) [UInt8.ofNat m] : HeapM Unit) h
      fun _ _ => True := by
  obtain ⟨l, hl, hbits, rfl, hle⟩ := (hs.arrays ha).body.member_sized hstorage hd (List.mem_of_getElem? hm) hn
  have hsrc := hs.end_le_top (hs.size_bits hx hl hbits)
  have hlen : (h.memory.window x.offset l.size).length = l.size := Memory.length_window _ _ _
  have hp : h.Provides t (h.memory.window x.offset l.size) := .object hx (TypeTable.isa_self _ _)
  have step : Step S h _ := .elementMember ha hi hstorage hd hm ⟨l, hl, hlen.symm⟩ hp hS
  rw [hlen] at step
  exact .of_runOn (runOn_setMember hs ha hi hstorage hle hsrc) (.step step) fun _ _ => trivial

theorem set_meets (hs : h.Sound) (hS : ∀ {f}, h.IsArray a f → ∀ j, S f.buffer j) (i : Nat) (x : Value) :
    Meets (Path S) (set a i x) h fun _ _ => True := by
  unfold set
  refine Meets.look_bind fun f hf => Meets.lift_bind fun _ hi => Meets.look_bind fun t hx => ?_
  refine Meets.look_bind fun start hstart => ?_
  have ha := isArray_of_info hs.registry hf
  have hi := ArrayInfo.checkIndex_eq_ok.1 hi
  have hS := hS ha
  obtain ⟨-, rfl⟩ := Buffer.start_eq_ok.1 hstart
  simp only [Nat.add_assoc]
  cases hstorage : f.flags.storage with
  | references =>
    refine Meets.look_bind fun fits hfits => Meets.ite (fun _ => ?_) fun hyes => ?_
    · exact Meets.look_bind fun _ => nofun
    · have hfits : h.types.isa t f.elem = .ok true := by
        rw [hfits]
        simpa using hyes
      exact setReference_meets hs ha hi hstorage hx hfits hS
  | flat =>
    refine Meets.ite (fun _ => Meets.look_bind fun _ => nofun) fun hsame => ?_
    rw [Decidable.not_not] at hsame
    rw [hsame] at hx
    exact setFlat_meets hs ha hi hstorage hx hS
  | selected =>
    refine Meets.look_bind fun selector hselector => ?_
    refine learns_bind (sizeOf_meets t) fun n h₁ hl hn => ?_
    obtain ⟨d, m, hd, hm, rfl⟩ := selectorOf_eq_ok hselector
    have hk := hl.keeps fun _ _ => False
    rw [← Nat.add_assoc refSize]
    exact setMember_meets (hs.learns hl) (hs.isArray_kept ha hk fun _ => id) hi hstorage
      (hk.descriptor hd) hm hn (hk.typeOf hx) hS

/-- Whatever a store does to the elements of an array, the array stays where it is. -/
theorem set_isArray (hs : h.Sound) (ha : h.IsArray a f) (i : Nat) (x : Value) :
    ((set a i x).runOn h).2.IsArray a f := by
  have hset : Meets (Path fun w _ => w = f.buffer) (set a i x) h fun _ _ => True :=
    set_meets hs (fun hg _ => by rw [ha.unique hg]) i x
  exact hs.isArray_kept ha (hset.kept.keeps hs) fun _ =>
    hs.ne_buffer (hs.arrays ha).type (hs.arrays ha).body.buffer

theorem setScalarFlat_meets {k : ScalarKind} {x : k.Carrier} (hs : h.Sound) (ha : h.IsArray a f)
    (hi : i < f.length) (hstorage : f.flags.storage = .flat) (hk : f.elem = k.type)
    (hS : ∀ j, S f.buffer j) :
    Meets (Path S) (storeScalar (f.buffer.offset + (refSize + f.slotOffset i)) k x) h
      fun _ _ => True := by
  refine storeScalar_meets fun bs table table' hrun hlen => ?_
  have hs' : ({ h with symbols := table } : Heap).Sound := hs.of_symbols table
  have ha' : ({ h with symbols := table } : Heap).IsArray a f := hs.isArray_symbols ha table
  obtain ⟨l, hl, -, hsize⟩ := (hs'.arrays ha').body.flat_bits hstorage
  rw [hk] at hl
  have hfit : bs.length = f.flags.slotSize := by
    rw [hlen, ← hsize, (hs'.scalar_size hl).2]
  refine (writeBytes_meets ?_ ?_).mono fun _ _ _ _ => trivial
  · rw [hfit]
    exact slot_end_le hs' ha' hi
  · exact .elementBits ha' hi hstorage hfit (.scalar hk.symm hrun) hS

/-- Zeros in the whole slot, the bits of a scalar and the selector. -/
theorem runOn_setScalarMember {bs : List UInt8} {u : UInt8} (hs : h.Sound) (ha : h.IsArray a f)
    (hi : i < f.length) (hstorage : f.flags.storage = .selected) (hle : bs.length ≤ f.flags.slotSize) :
    (do
      clearBytes (f.buffer.offset + (refSize + f.slotOffset i)) f.flags.slotSize
      writeBytes (f.buffer.offset + (refSize + f.slotOffset i)) bs
      writeBytes (f.buffer.offset + (refSize + f.selectorOffset i)) [u] : HeapM Unit).runOn h =
      (.ok ⟨⟩, ((h.put f.buffer (refSize + f.slotOffset i) (List.replicate f.flags.slotSize 0)).put f.buffer
        (refSize + f.slotOffset i) bs).put f.buffer (refSize + f.selectorOffset i) [u]) := by
  have hend := slot_end_le hs ha hi
  have hselector := selector_end_le hs ha hi hstorage
  rw [Action.runOn_bind_ok (runOn_clearBytes hend),
    Action.runOn_bind_ok (runOn_writeBytes (by rw [put_top]; omega)),
    runOn_writeBytes (by simp only [put_top, List.length_singleton]; exact hselector)]

theorem setScalarMember_meets {d : Descriptor} {m : Nat} {k : ScalarKind} {x : k.Carrier}
    (hs : h.Sound) (ha : h.IsArray a f) (hi : i < f.length) (hstorage : f.flags.storage = .selected)
    (hd : h.types.descriptor f.elem = .ok d) (hm : d.memberTypes[m]? = some k.type)
    (hS : ∀ j, S f.buffer j) :
    Meets (Path S) (do
      let bs ← encode k x
      clearBytes (f.buffer.offset + (refSize + f.slotOffset i)) f.flags.slotSize
      writeBytes (f.buffer.offset + (refSize + f.slotOffset i)) bs
      writeBytes (f.buffer.offset + (refSize + f.selectorOffset i)) [UInt8.ofNat m] : HeapM Unit) h
      fun _ _ => True := by
  refine Meets.bind (encode_meets k x) fun bs h₁ _ hbs => ?_
  obtain ⟨⟨table, hrun⟩, hlen, heq⟩ := hbs
  rw [heq]
  have hs' : ({ h with symbols := h₁.symbols } : Heap).Sound := hs.of_symbols h₁.symbols
  have ha' : ({ h with symbols := h₁.symbols } : Heap).IsArray a f := hs.isArray_symbols ha h₁.symbols
  obtain ⟨l, hl, -, hle⟩ := (hs'.arrays ha').body.member_bits hstorage hd (List.mem_of_getElem? hm)
  have hsize : l.size = bs.length := by rw [hlen, (hs'.scalar_size hl).2]
  have step : Step S { h with symbols := h₁.symbols } _ :=
    .elementScalar ha' hi hstorage hd hm ⟨l, hl, hsize⟩ (.scalar rfl hrun) hS
  rw [hsize] at hle
  exact .of_runOn (runOn_setScalarMember hs' ha' hi hstorage hle) (.step step) fun _ _ => trivial

theorem setScalar_meets (hr : Ready S h) (hS : ∀ {f}, h.IsArray a f → ∀ j, S f.buffer j) (i : Nat)
    (k : ScalarKind) (x : k.Carrier) : Meets (Path S) (setScalar a i k x) h fun _ _ => True := by
  unfold setScalar
  have hs := hr.sound
  refine Meets.look_bind fun f hf => Meets.lift_bind fun _ hi => Meets.look_bind fun start hstart => ?_
  have ha := isArray_of_info hs.registry hf
  have hi := ArrayInfo.checkIndex_eq_ok.1 hi
  obtain ⟨-, rfl⟩ := Buffer.start_eq_ok.1 hstart
  simp only [Nat.add_assoc]
  cases hstorage : f.flags.storage with
  | references =>
    refine Meets.bind (hr.narrow fun hr => Box.new_meets hr k x) fun box h₁ hpath hbox => ?_
    -- The array is what it was before the box was made.
    have ha₁ := hs.isArray_kept ha hbox.1 fun _ hdead => hdead ha.live
    refine set_meets (hpath.sound hs) (fun hg => ?_) i box
    rw [ha₁.unique hg]
    exact hS ha
  | flat =>
    refine Meets.ite (fun _ => Meets.look_bind fun _ => nofun) fun hsame => ?_
    exact setScalarFlat_meets hs ha hi hstorage (Decidable.not_not.1 hsame) (hS ha)
  | selected =>
    refine Meets.look_bind fun selector hselector => ?_
    obtain ⟨d, m, hd, hm, rfl⟩ := selectorOf_eq_ok hselector
    exact setScalarMember_meets hs ha hi hstorage hd hm (hS ha)

theorem setScalar_isArray (hs : h.Sound) (ha : h.IsArray a f) (i : Nat) (k : ScalarKind)
    (x : k.Carrier) : ((setScalar a i k x).runOn h).2.IsArray a f := by
  have hset : Meets (Path fun w _ => w = f.buffer ∨ ¬h.Live w) (setScalar a i k x) h fun _ _ => True :=
    setScalar_meets ⟨hs, fun hv _ => .inr hv⟩ (fun hg _ => by rw [ha.unique hg]; exact .inl rfl) i k x
  refine hs.isArray_kept ha (hset.kept.keeps hs) fun _ hor => ?_
  rcases hor with heq | hdead
  · exact hs.ne_buffer (hs.arrays ha).type (hs.arrays ha).body.buffer heq
  · exact hdead ha.live

end ArrayObject

end TypedHeap
