import TypedHeap.Proofs.Array.Acceptance
import TypedHeap.Proofs.Object.Boxing

/-!
# Elements with a box and without

An array of references boxes the scalars that it is given. Other arrays copy the bytes of a scalar into the slot,
and have code of their own for that, as they have for reading a scalar. Where a slot has room for members of
several sizes, what lies behind the bytes is cleared.

* `ArrayObject.scalarSlot`: a store of a scalar once the array and the index are known.
* `byte_put_zeros_behind`, `member_beside`: zeros and then bytes, or bytes and then zeros behind them.

Main results: `setScalar_beside`, `getScalar_eq_unboxed`.
-/

namespace TypedHeap

open TypedHeap.Action (runOn_bind_ok runOn_bind_error runOn_bind_asked runOn_look)
open Heap

variable {h h₁ : Heap} {a b v w : Value} {f : ArrayInfo} {t : TypeRef} {d : Descriptor} {i j n m : Nat}
  {k : ScalarKind} {x : k.Carrier} {bs : List UInt8}

/-- A slot that was cleared before some bytes were written holds what it holds if it is cleared behind them. -/
theorem Heap.byte_put_zeros_behind {g : Heap} (hle : bs.length ≤ m) (hend : v.offset + n + m ≤ h.memory.length)
    (hend' : v.offset + n + m ≤ g.memory.length) (hbyte : g.byte w j = h.byte w j) :
    ((g.put v n bs).put v (n + bs.length) (List.replicate (m - bs.length) 0)).byte w j =
      ((h.put v n (List.replicate m 0)).put v n bs).byte w j := by
  have hlen := List.length_replicate (n := m) (a := (0 : UInt8))
  have hlen' := List.length_replicate (n := m - bs.length) (a := (0 : UInt8))
  by_cases hin : v.offset + n ≤ w.offset + j ∧ w.offset + j < v.offset + n + m
  · obtain ⟨q, hq⟩ := Nat.exists_eq_add_of_le hin.1
    have hsame (h : Heap) : h.byte w j = h.byte v (n + q) := by rw [byte, byte, hq, Nat.add_assoc]
    rw [hsame, hsame]
    by_cases hlt : q < bs.length
    · rw [byte_put_outside (by omega), byte_put_inside (by omega) hlt,
        byte_put_inside (by rw [length_put]; omega) hlt]
    · rw [byte_put_zeros (by rw [length_put]; omega) (by omega) (by omega), byte_put_outside (by omega),
        byte_put_zeros hend (by omega) (by omega)]
  · rw [byte_put_of_outside (by omega), byte_put_of_outside (by omega), byte_put_of_outside (by omega),
      byte_put_of_outside (by omega), hbyte]

namespace ArrayObject

/-! ## Reading -/

/-- A scalar is read from an array as it is from the value of the element, if there is room for that. -/
theorem getScalar_eq_unboxed (ho : h.Orderly) (k : ScalarKind) (a : Value) (i : Nat)
    (hroom : ∀ t bs, ((get a i).runOn h).1 = .ok (.bits t bs) → h.nextStart + bs.length ≤ h.limit) :
    ((getScalar k a i).runOn h).1 = Box.unboxed k (getValue a i) h := by
  have hs := ho.sound
  -- Both ways begin with the same question, so they fail alike if it has no answer.
  have hfail {err : Error} (hget : ((get a i).runOn h).1 = .error err) :
      ((getScalar k a i).runOn h).1 = Box.unboxed k (getValue a i) h := by
    have hrun : (get a i).runOn h = (.error err, ((get a i).runOn h).2) := Prod.ext hget rfl
    have hscalar : (getScalar k a i).runOn h = _ := runOn_bind_error hrun
    have hvalue : (getValue a i).runOn h = _ := runOn_bind_error hrun
    rw [hscalar, Box.unboxed_error hvalue]
  cases hf : info h a with
  | error err => exact hfail (congrArg Prod.fst (runOn_bind_error (by rw [runOn_look, hf])))
  | ok f =>
    have ha := hs.info_iff.1 hf
    have hb := (hs.arrays ha).body
    by_cases hi : i < f.length
    · obtain ⟨shown, hd⟩ := exists_shows hb hi
      have hget := runOn_get hs ha hi hd
      have hscalar : (getScalar k a i).runOn h = (defined i shown >>= Datum.read k h, h) :=
        runOn_bind_asked hget fun d h => d.read k h
      cases shown with
      | none => exact hfail (congrArg Prod.fst hget)
      | some c =>
        cases c with
        | ref y =>
          have hvalue : (getValue a i).runOn h = (.ok y, h) := runOn_bind_ok hget
          rw [hscalar, Box.unboxed_ok hvalue]
          rfl
        | bits t bs =>
          have hroom := hroom t bs (congrArg Prod.fst hget)
          obtain ⟨n, hbits, rfl⟩ := hd.elementBits
          obtain ⟨l, hl, hplain, rfl, hle⟩ := hbits.layout hb
          have hend := hb.slot_end (Nat.lt_of_lt_of_le hi hb.length_le)
          rw [Memory.length_window] at hroom
          rw [hscalar, Box.unboxed, runOn_getValue_bits hs ha hi hbits]
          exact (Box.unboxed_copied ho hl hplain (hs.size_buffer hb.buffer) (by omega) hroom k).symm
    · exact hfail (congrArg Prod.fst (runOn_get_error hs ha (Nat.not_lt.1 hi)))

/-! ## Writing -/

/-- A store of a scalar, once the array and the index are known. -/
def scalarSlot (a : Value) (f : ArrayInfo) (i : Nat) (k : ScalarKind) (x : k.Carrier) : HeapM Unit := do
  let slot := f.buffer.offset + refSize + f.slotOffset i
  match f.flags.storage with
  | .references =>
    let box ← Box.new k x
    set a i box
  | .flat =>
    if f.elem ≠ k.type then Action.look fun h => throw (h.types.mismatch f.elem k.type)
    Heap.storeScalar slot k x
  | .selected =>
    let selector ← Action.look (selectorOf · f k.type)
    let bs ← Heap.encode k x
    Heap.clearBytes slot f.flags.slotSize
    Heap.writeBytes slot bs
    Heap.writeBytes (f.buffer.offset + refSize + f.selectorOffset i) [selector]

theorem runOn_setScalar (hs : h.Sound) (ha : h.IsArray a f) (hi : i < f.length) :
    (setScalar a i k x).runOn h = (scalarSlot a f i k x).runOn h := by
  unfold setScalar
  rw [runOn_bind_ok (hs.runOn_info ha), runOn_bind_ok (f.runOn_checkIndex hi h), runOn_bind_ok (hs.runOn_start ha)]
  rfl

/-- A slot with a selector is cleared before or behind. -/
theorem member_beside {s : UInt8} (hb : Beside b h h₁) (hs : h.Sound) (hs₁ : h₁.Sound) (hbody : h.BodySound f)
    (hbody₁ : h₁.BodySound f) (hi : i < f.capacity) (hstorage : f.flags.storage = .selected)
    (hle : bs.length ≤ f.flags.slotSize) :
    Beside b (((({ h with symbols := h₁.symbols } : Heap).put f.buffer (refSize + f.slotOffset i)
        (List.replicate f.flags.slotSize 0)).put f.buffer (refSize + f.slotOffset i) bs).put f.buffer
          (refSize + f.selectorOffset i) [s])
      (((h₁.put f.buffer (refSize + f.slotOffset i) bs).put f.buffer (refSize + (f.slotOffset i + bs.length))
        (List.replicate (f.flags.slotSize - bs.length) 0)).put f.buffer (refSize + f.selectorOffset i) [s]) := by
  have hr := ((Rewrites.withSymbols _ h h₁.symbols).slot_clearedBefore hs hbody hi hle).selector (s := s) hs hbody hi
    hstorage
  have hr₁ := ((Rewrites.refl _ h₁).slot_clearedBehind hs₁ hbody₁ hi rfl hle).selector (s := s) hs₁ hbody₁ hi hstorage
  have hend := hbody.slot_end hi
  have hroom : f.selectorOffset i + 1 ≤ h.word f.buffer 0 := hbody.selector_end hstorage hi
  have hn := hs.size_buffer hbody.buffer
  have htop := hs.end_le_top hn
  have htop₁ := hs₁.end_le_top (hb.kept.size? hn)
  have hreach := hs.arena.reach
  have hreach₁ := hs₁.arena.reach
  rw [Nat.add_assoc refSize] at hr₁
  refine hb.written hr hr₁ (fun {w n j} hw hj => ?_) ?_
  · have hbytes := byte_put_zeros_behind (h := { h with symbols := h₁.symbols }) (g := h₁) (v := f.buffer)
      (n := refSize + f.slotOffset i) hle (by show _ ≤ h.memory.length; omega) (by omega) (hb.kept.bytes hw hj id)
    rw [Nat.add_assoc refSize] at hbytes
    refine byte_put_congr ?_ ?_ hbytes
    · rw [length_put, length_put, List.length_singleton]
      show _ ≤ h.memory.length
      omega
    · rw [length_put, length_put, List.length_singleton]
      omega
  · simp only [put_symbols]
    exact .refl _

section Slots

variable (ho : h.Orderly) (hb : Box.Boxed h k x b bs h₁) (ha : h.IsArray a f) (hi : i < f.length)

include ho hb ha

/-- The two types are named alike where a scalar does not fit. -/
theorem mismatch_beside : h₁.types.mismatch f.elem k.type = h.types.mismatch f.elem k.type :=
  hb.beside.mismatch_eq ho (TypeTable.contains_iff.2 ((ho.sound.arrays ha).body.exists_descriptor ho.sound))
    (ho.sound.contains_scalar k)

include hi

/-- The bytes of the scalar are written, or the bytes of the box are copied. -/
theorem flat_beside (hstorage : f.flags.storage = .flat) :
    EndBeside b ((scalarSlot a f i k x).runOn h) ((setSlot f i b k.type).runOn h₁) := by
  have hs := ho.sound
  have hs₁ := hb.sound
  have hbody := (hs.arrays ha).body
  have hmismatch := mismatch_beside ho hb ha
  unfold scalarSlot setSlot
  rw [hstorage]
  dsimp only
  by_cases hsame : f.elem = k.type
  · have hn := hs.size_buffer hbody.buffer
    have hn₁ := hb.beside.kept.size? hn
    have hend := hbody.slot_end (Nat.lt_of_lt_of_le hi hbody.length_le)
    have htop := hs.end_le_top hn
    have htop₁ := hs₁.end_le_top hn₁
    obtain ⟨l, hl, -, hsize⟩ := hbody.flat_bits hstorage
    rw [hsame] at hl
    have hslot : f.flags.slotSize = k.size := hsize.symm.trans (hs.scalar_size hl).2
    have hlength : bs.length = k.size := length_encode hb.encode
    obtain ⟨m, hm, hbits, hsize⟩ := hs₁.scalar_layout hb.type
    have hsource := hs₁.end_le_top (hs₁.size_bits hb.type hm hbits)
    rw [if_neg (not_not_intro hsame), if_neg (not_not_intro hsame.symm), Nat.add_assoc]
    have hscalar := runOn_storeScalar hb.encode (by omega : f.buffer.offset + (refSize + f.slotOffset i) + bs.length ≤ h.top)
    have hbox : (copyBytes b.offset f.flags.slotSize (f.buffer.offset + (refSize + f.slotOffset i))).runOn h₁ = _ :=
      runOn_copyBytes (by omega) (by omega)
    rw [hslot, hb.bits] at hbox
    rw [hslot, hscalar, hbox]
    exact ⟨rfl, hb.beside.listed.put (hs.of_symbols _).arena hs₁.arena hn (by omega)⟩
  · rw [if_pos hsame, if_pos (Ne.symm hsame)]
    refine ⟨?_, hb.beside⟩
    exact congrArg Except.error hmismatch.symm

/-- The slot is cleared and the bytes of the scalar are written, or the bytes of the box are copied and the rest of
the slot is cleared. -/
theorem selected_beside (hstorage : f.flags.storage = .selected) :
    EndBeside b ((scalarSlot a f i k x).runOn h) ((setSlot f i b k.type).runOn h₁) := by
  have hs := ho.sound
  have hs₁ := hb.sound
  have hbody := (hs.arrays ha).body
  have ha₁ := hs.isArray_kept ha hb.beside.kept fun _ => id
  obtain ⟨c, hc⟩ := hbody.exists_descriptor hs
  have hselector := selectorOf_members (t := k.type) hc
  have hselector₁ := selectorOf_members (t := k.type) (hb.beside.kept.descriptor hc)
  rw [mismatch_beside ho hb ha] at hselector₁
  unfold scalarSlot setSlot
  rw [hstorage]
  dsimp only
  cases hm : c.memberTypes.idxOf? k.type with
  | none =>
    rw [hm] at hselector hselector₁
    rw [runOn_bind_error (by rw [runOn_look, hselector]), runOn_bind_error (by rw [runOn_look, hselector₁])]
    exact ⟨rfl, hb.beside⟩
  | some m =>
    rw [hm] at hselector hselector₁
    have hask : (Action.look (selectorOf · f k.type)).runOn h = (.ok (UInt8.ofNat m), h) := by
      rw [runOn_look, hselector]
    have hask₁ : (Action.look (selectorOf · f k.type)).runOn h₁ = (.ok (UInt8.ofNat m), h₁) := by
      rw [runOn_look, hselector₁]
    have hencoded : (encode k x).runOn h = (.ok bs, { h with symbols := h₁.symbols }) := by
      rw [runOn_encode, hb.encode]
    obtain ⟨hlt, hmem, -⟩ := List.idxOf?_eq_some_iff.1 hm
    obtain ⟨l, hl, hbits, hle⟩ := hbody.member_bits hstorage hc (List.mem_of_getElem? (List.getElem?_eq_getElem hlt))
    rw [hmem] at hl
    have hsize := (hs.scalar_size hl).2
    have hl₁ := hb.beside.kept.registry.layouts hl
    have hsource := hs₁.end_le_top (hs₁.size_bits hb.type hl₁ hbits)
    have hlength : bs.length = l.size := (length_encode hb.encode).trans hsize.symm
    have hbox := runOn_setMember (s := UInt8.ofNat m) hs₁ ha₁ hi hstorage hle hsource
    rw [hsize, hb.bits, ← hsize, ← hlength] at hbox
    rw [← hlength] at hle
    have hscalar := runOn_setScalarMember (u := UInt8.ofNat m) (hs.of_symbols h₁.symbols)
      (hs.isArray_symbols ha h₁.symbols) hi hstorage hle
    rw [runOn_bind_ok hask, runOn_bind_ok hask₁, runOn_bind_ok hencoded,
      runOn_bind_ok (runOn_sizeOf hs₁.registry ⟨l, hl₁, hlength.symm⟩)]
    simp only [Nat.add_assoc] at hbox hscalar ⊢
    rw [hscalar, hbox]
    have hcap := Nat.lt_of_lt_of_le hi hbody.length_le
    exact ⟨rfl, member_beside hb.beside hs hs₁ hbody (hs₁.arrays ha₁).body hcap hstorage hle⟩

end Slots

/-- An array takes a scalar as it takes a box with the scalar. -/
theorem setScalar_beside (ho : h.Orderly) (hrun : (Box.new k x).runOn h = (.ok b, h₁)) (hne : a ≠ b) (i : Nat) :
    EndBeside b ((setScalar a i k x).runOn h) ((set a i b).runOn h₁) := by
  have hs := ho.sound
  obtain ⟨bs, hb⟩ := Box.boxed_of_run hs hrun
  have hs₁ := hb.sound
  have hinfo := hb.beside.info_eq ho hs₁ hne
  cases hf : info h a with
  | error err =>
    have hscalar : (setScalar a i k x).runOn h = (.error err, h) := runOn_bind_error (by rw [runOn_look, hf])
    have hbox : (set a i b).runOn h₁ = (.error err, h₁) := runOn_bind_error (by rw [runOn_look, hinfo, hf])
    rw [hscalar, hbox]
    exact ⟨rfl, hb.beside⟩
  | ok f =>
    have ha := hs.info_iff.1 hf
    have ha₁ := hs₁.info_iff.1 (hinfo.trans hf)
    by_cases hi : i < f.length
    · rw [runOn_setScalar hs ha hi]
      cases hstorage : f.flags.storage with
      | references =>
        -- The array makes the box that the long way has made.
        have hsame : (scalarSlot a f i k x).runOn h = (set a i b).runOn h₁ := by
          unfold scalarSlot
          rw [hstorage]
          exact runOn_bind_ok hrun
        rw [hsame]
        exact ⟨rfl, .refl b _⟩
      | flat =>
        rw [runOn_set hs₁ ha₁ hi hb.type]
        exact flat_beside ho hb ha hi hstorage
      | selected =>
        rw [runOn_set hs₁ ha₁ hi hb.type]
        exact selected_beside ho hb ha hi hstorage
    · have hrange := Nat.not_lt.1 hi
      have hscalar : (setScalar a i k x).runOn h = (.error (.indexOutOfRange .element i f.length), h) :=
        (runOn_bind_ok (hs.runOn_info ha)).trans (runOn_bind_error (f.runOn_checkIndex_error hrange h))
      have hbox : (set a i b).runOn h₁ = (.error (.indexOutOfRange .element i f.length), h₁) :=
        (runOn_bind_ok (hs₁.runOn_info ha₁)).trans (runOn_bind_error (f.runOn_checkIndex_error hrange h₁))
      rw [hscalar, hbox]
      exact ⟨rfl, hb.beside⟩

end ArrayObject

end TypedHeap
