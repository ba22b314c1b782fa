import TypedHeap.Proofs.Heap.Normal
import TypedHeap.Proofs.Heap.Symbols

/-!
# Heaps stay tidy

New objects are zero, bits that are stored come from values in normal form, slots that are taken into use were
emptied before, and an array that moves takes its slots along as they are.

* `Tidy.allocated`, `Tidy.built`, `Tidy.viewed`, `Tidy.moved`, `Tidy.resized`: new objects and other words of arrays.
* `Tidy.field`, `Tidy.flat`, `Tidy.member`, `Tidy.cleared`: fields and slots that are written to.
* `Tidy.lengthy`: objects that are no values.

Main results: `Step.tidy`, `Trail.tidy`.
-/

namespace TypedHeap.Heap

open ArrayObject

variable {h h' : Heap} {a v w : Value} {f g : ArrayInfo} {t : TypeRef} {d : Descriptor} {l : Layout}
  {e : FieldLayout} {i j k n lo hi extra : Nat} {S : Value → Nat → Prop} {bs : List UInt8} {dims : List Nat}

namespace Tidy

/-! ## New objects -/

theorem allocated (ht : h.Tidy) (horder : (h.allocated v d extra n).InOrder fun _ => True)
    (hd : h.types.descriptor t = .ok d) (hn : h.SizeFor d extra n) (hv : v.offset = h.nextStart)
    (hend : v.offset + n ≤ h.limit) : (h.allocated v d extra n).Tidy := by
  have hnew := newObject_allocated ht.sound (.refl h) hd hn hv hend
  obtain ⟨s, hs⟩ := ht.first
  refine ht.of_keeps horder hnew.kept (by rw [allocated_symbols]; exact .refl _)
    (fun {w u c} htype hc hfixed hlive => ?_) fun ha _ _ hlive => (hlive (hnew.arrays ha)).elim fun _ => False.elim
  rcases hnew.only w (live_of_typeOf htype) with hw | rfl
  · exact (hlive hw).elim fun _ => False.elim
  · cases hnew.type.symm.trans htype
    obtain ⟨l, hl, -⟩ := horder.sound.fixed_layout htype hc hfixed
    refine .zeros horder.sound (by rw [allocated_symbols]; exact hs) hl fun j _ => hnew.zero hc ?_
    intro hlength
    rw [(isVariableSize_eq_false_iff.1 hfixed).1] at hlength
    cases hlength

/-! ## Objects -/

/-- Flags and what is known of types and symbols are no values. -/
theorem of_flags (ht : h.Tidy) (horder : h'.InOrder fun _ => True) (hsymbols : h.symbols.Grows h'.symbols)
    (hr : Rewrites (fun _ _ => False) h h') : h'.Tidy := by
  refine ht.of_rewrites horder hr hsymbols (fun hS => hS.elim) fun _ _ _ hor => ?_
  rcases hor with ⟨-, hS⟩ | ⟨-, -, hS⟩
  · exact hS.elim
  · exact hS.elim

theorem learned (ht : h.Tidy) (horder : h'.InOrder fun _ => True) (hsymbols : h.symbols.Grows h'.symbols)
    (hl : h.Learns h') : h'.Tidy := by
  have hk := hl.keeps fun _ _ => False
  have hlive {w : Value} (hw : h'.Live w) : h.Live w := by
    obtain ⟨n, hn⟩ := hw
    exact ⟨n, by rw [← hl.size?_eq, hn]⟩
  refine ht.of_keeps horder hk hsymbols (fun htype _ _ hold => ?_) fun ha _ _ hold => ?_
  · exact (hold (hlive (live_of_typeOf htype))).elim fun _ => False.elim
  · exact (hold (ht.sound.isArray_of_live hk (hlive ha.live) ha fun _ => id)).elim fun _ => False.elim

/-- Objects with a length of their own are no values, apart from what arrays keep in buffers. -/
theorem lengthy (ht : h.Tidy) (horder : h'.InOrder fun _ => True) (hsymbols : h.symbols.Grows h'.symbols)
    (htype : h.typeOf v = .ok t) (hd : h.types.descriptor t = .ok d) (hlength : hasLength d.kind = true)
    (hunused : ∀ {a f}, h.IsArray a f → f.buffer ≠ v) (hr : Rewrites (fun x _ => x = v) h h') : h'.Tidy := by
  refine ht.of_object horder hr hsymbols htype hd (fun hkind => ?_) hunused fun hfixed => ?_
  · rw [hkind] at hlength
    cases hlength
  · rw [(isVariableSize_eq_false_iff.1 hfixed).1] at hlength
    cases hlength

/-- Objects of other types are no buffers. -/
theorem unused (ht : h.Tidy) (htype : h.typeOf v = .ok t) (hne : t ≠ Builtin.buffer) :
    ∀ {a f}, h.IsArray a f → f.buffer ≠ v := by
  intro a f ha heq
  have hbuffer := (ht.sound.arrays ha).body.buffer
  rw [heq, htype] at hbuffer
  exact hne (Except.ok.inj hbuffer)

theorem vector (ht : h.Tidy) (horder : h'.InOrder fun _ => True) (hsymbols : h.symbols.Grows h'.symbols)
    (htype : h.typeOf v = .ok Builtin.simpleVector) (hr : Rewrites (fun x _ => x = v) h h') : h'.Tidy :=
  ht.lengthy horder hsymbols htype ht.sound.descriptor_simpleVector rfl (ht.unused htype (by decide)) hr

/-- An object that is nothing but bits is filled. -/
theorem filled (ht : h.Tidy) (horder : (h.put v 0 bs).InOrder fun _ => True) (htype : h.typeOf v = .ok t)
    (hl : h.registry.layouts.find? t = some l) (hbits : l.isBits = true) (hlen : bs.length = l.size)
    (hp : h.Provides t bs) : (h.put v 0 bs).Tidy := by
  have hs := ht.sound
  obtain ⟨d, hd, hfixed⟩ := hs.fixed_of_isBits hl hbits
  have hsize := hs.size_bits htype hl hbits
  have hend := hs.end_le_top hsize
  have hreach := hs.arena.reach
  have hkind := (isVariableSize_eq_false_iff.1 hfixed).2
  refine ht.of_object horder (.put hs.arena hsize (by omega) fun _ _ _ => rfl) (by rw [put_symbols]; exact .refl _)
    htype hd hkind (fun {a f} ha heq => ?_) fun _ => ?_
  · exact hs.ne_buffer_of_isBits htype hl hbits (hs.arrays ha).body.buffer heq.symm
  · exact .put (ht.provides hp hl hbits hlen) hs hl hlen (by omega)

/-- A field of a record gets bits or a reference. -/
theorem field (ht : h.Tidy) (horder : h'.InOrder fun _ => True) (hsymbols : h'.symbols = h.symbols)
    (hr : Rewrites (fun x j => x = v ∧ e.offset ≤ j ∧ j < e.offset + e.size) h h') (htype : h.typeOf v = .ok t)
    (hl : h.registry.layouts.find? t = some l) (he : e ∈ l.fields)
    (hinner : e.isInline = true → h'.Normal e.type v e.offset) : h'.Tidy := by
  have hs := ht.sound
  obtain ⟨d, hd, hfixed⟩ := hs.fixed_of_field hl he
  have hkind := (isVariableSize_eq_false_iff.1 hfixed).2
  refine ht.of_object horder (hr.mono fun _ _ hin => hin.1) (by rw [hsymbols]; exact .refl _) htype hd hkind
    (fun {a f} ha heq => ?_) fun _ => ?_
  · have hbuffer := (hs.arrays ha).body.buffer
    rw [heq, htype] at hbuffer
    cases hbuffer
    cases hs.descriptor_buffer.symm.trans hd
    cases hfixed
  · have hnormal := ht.objects htype hd hfixed
    unfold Normal at hinner ⊢
    rw [hr.registry, hsymbols] at hinner ⊢
    have hsize := hs.size_record htype hl he
    refine Registry.Normal.overwrite hnormal hs.registry hl he (fun j hj hbeside => ?_) fun hinline => ?_
    · refine hr.bytes hsize (by omega) fun hin => ?_
      omega
    · simp only [Nat.zero_add]
      exact hinner hinline

theorem fieldRef (ht : h.Tidy) (horder : ((h.putWord v e.offset w.offset).guarded v w).InOrder fun _ => True)
    (htype : h.typeOf v = .ok t) (hl : h.registry.layouts.find? t = some l) (he : e ∈ l.fields)
    (hout : e.isInline = false) : ((h.putWord v e.offset w.offset).guarded v w).Tidy := by
  have hs := ht.sound
  have hsize := hs.registry.layouts.size_reference hl he hout
  have hend := hs.registry.layouts.end_le hl he
  rw [hsize, refSize] at hend
  have hr : Rewrites (fun x j => x = v ∧ e.offset ≤ j ∧ j < e.offset + e.size) h (h.putWord v e.offset w.offset) :=
    .putWord hs.arena (hs.size_record htype hl he) hend fun j hlo hhi => ⟨rfl, hlo, by rw [hsize, refSize]; exact hhi⟩
  have harena := hr.arena hs.arena
  refine ht.field horder ((symbols_guarded harena v w).trans putWord_symbols) (hr.trans (.guarded harena v w)) htype hl
    he fun hinline => ?_
  rw [hout] at hinline
  cases hinline

theorem fieldBits (ht : h.Tidy) (horder : (h.put v e.offset bs).InOrder fun _ => True) (htype : h.typeOf v = .ok t)
    (hl : h.registry.layouts.find? t = some l) (he : e ∈ l.fields) (hinline : e.isInline = true)
    (hlen : bs.length = e.size) (hp : h.Provides e.type bs) : (h.put v e.offset bs).Tidy := by
  have hs := ht.sound
  obtain ⟨l', hl', hbits, hsize⟩ := hs.registry.layouts.inline hl he hinline
  have hrecord := hs.size_record htype hl he
  have hend := hs.registry.layouts.end_le hl he
  have htop := hs.end_le_top hrecord
  have hreach := hs.arena.reach
  have hlen' := hlen.trans hsize.symm
  refine ht.field horder put_symbols (.put hs.arena hrecord (by omega) fun j hlo hhi => ⟨rfl, hlo, by omega⟩) htype hl
    he fun _ => ?_
  exact .put (ht.provides hp hl' hbits hlen') hs hl' hlen' (by omega)

/-! ## Elements -/

/-- Slots of zeros are in normal form. -/
theorem cleared (ht : h.Tidy) (horder : h'.InOrder fun _ => True) (hsymbols : h'.symbols = h.symbols)
    (ha : h.IsArray a f) (hr : Rewrites (Cells f lo hi) h h') (hhi : hi ≤ f.capacity)
    (hzero : ∀ j, f.slotOffset lo ≤ j → j < f.slotOffset hi → h'.byte f.buffer (refSize + j) = 0) : h'.Tidy := by
  obtain ⟨s, hs⟩ := ht.first
  have harray := ht.sound.arrays ha
  refine ht.of_slots horder ha hr (by rw [hsymbols]; exact .refl _) hhi fun i hlo hhi' hi hstorage => ?_
  have ha' := ht.sound.isArray_kept ha hr.keeps fun _ hin => ht.sound.ne_buffer harray.type harray.body.buffer hin.1
  have h1 := f.slotOffset_mono hlo
  have h2 := f.slot_end_le hhi'
  refine .zeros horder.sound (by rw [hsymbols]; exact hs) (horder.sound.arrays ha').body hi hstorage fun j hj => ?_
  rw [Nat.add_assoc]
  exact hzero _ (by omega) (by omega)

/-- A slot gets bits of its type. -/
theorem flat (ht : h.Tidy) (horder : (h.put f.buffer (refSize + f.slotOffset i) bs).InOrder fun _ => True)
    (ha : h.IsArray a f) (hi : i < f.length) (hstorage : f.flags.storage = .flat)
    (hlen : bs.length = f.flags.slotSize) (hp : h.Provides f.elem bs) :
    (h.put f.buffer (refSize + f.slotOffset i) bs).Tidy := by
  have hs := ht.sound
  have hb := (hs.arrays ha).body
  have hi' := Nat.lt_of_lt_of_le hi hb.length_le
  have hend := slot_end_le hs ha hi
  have hreach := hs.arena.reach
  obtain ⟨l, hl, hbits, hsize⟩ := hb.flat_bits hstorage
  have hr : Rewrites (Cells f i (i + 1)) h (h.put f.buffer (refSize + f.slotOffset i) bs) :=
    (Rewrites.refl _ h).slot hs hb hi' (Nat.le_refl _) (by omega)
  refine ht.of_slots horder ha hr (by rw [put_symbols]; exact .refl _) hi' fun m hlo hhi _ _ => ?_
  obtain rfl : m = i := by omega
  refine ⟨f.elem, _, .flat hstorage rfl rfl, ?_, fun j hj hj' => by omega⟩
  exact .put (ht.provides hp hl hbits (by omega)) hs hl (by omega) (by omega)

/-- A slot gets bits of a member of a union and zeros behind them, and its selector says which member it is. -/
theorem member {m : Nat} (ht : h.Tidy)
    (horder : (h'.put f.buffer (refSize + f.selectorOffset i) [UInt8.ofNat m]).InOrder fun _ => True)
    (hsymbols : h'.symbols = h.symbols) (ha : h.IsArray a f) (hi : i < f.length)
    (hstorage : f.flags.storage = .selected) (hd : h.types.descriptor f.elem = .ok d)
    (hm : d.memberTypes[m]? = some t) (hn : h.registry.Sized t bs.length) (hp : h.Provides t bs)
    (hr : Rewrites (Cells f i (i + 1)) h h')
    (hbytes : ∀ j, j < f.flags.slotSize → h'.byte f.buffer (refSize + f.slotOffset i + j) = bs[j]?.getD 0) :
    (h'.put f.buffer (refSize + f.selectorOffset i) [UInt8.ofNat m]).Tidy := by
  have hs := ht.sound
  have hb := (hs.arrays ha).body
  have hi' := Nat.lt_of_lt_of_le hi hb.length_le
  have hslot := f.slot_end_le hi'
  have hbehind : f.slotOffset f.capacity ≤ f.selectorOffset i := f.slotOffset_le_selectorOffset (Nat.le_refl _)
  obtain ⟨l, hl, hbits, hsize, hle⟩ := hb.member_sized hstorage hd (List.mem_of_getElem? hm) hn
  have hr' := hr.selector (s := UInt8.ofNat m) hs hb hi' hstorage
  have hbytes (j : Nat) (hj : j < f.flags.slotSize) : (h'.put f.buffer (refSize + f.selectorOffset i)
      [UInt8.ofNat m]).byte f.buffer (refSize + f.slotOffset i + j) = bs[j]?.getD 0 := by
    rw [byte_put_outside (.inl (by omega)), hbytes j hj]
  refine ht.of_slots horder ha hr' (by rw [put_symbols, hsymbols]; exact .refl _) hi' fun k hlo hhi _ _ => ?_
  obtain rfl : k = i := by omega
  refine ⟨t, bs.length, elementBits_selector hs hb hi' hstorage hd hm hn hr, ?_, fun j hj hj' => ?_⟩
  · refine Registry.Normal.congr (ht.provides hp hl hbits hsize.symm) hs.registry hr'.extends.registry ?_ hl
      fun j hj => hbytes j (by omega)
    rw [put_symbols, hsymbols]
    exact .refl _
  · rw [hbytes j hj', List.getElem?_eq_none hj]
    rfl

/-- Zeros are written behind the bits of the member. -/
theorem elementMember {m : Nat} (ht : h.Tidy)
    (horder : (((h.put f.buffer (refSize + f.slotOffset i) bs).put f.buffer (refSize + f.slotOffset i + bs.length)
      (List.replicate (f.flags.slotSize - bs.length) 0)).put f.buffer (refSize + f.selectorOffset i)
        [UInt8.ofNat m]).InOrder fun _ => True)
    (ha : h.IsArray a f) (hi : i < f.length) (hstorage : f.flags.storage = .selected)
    (hd : h.types.descriptor f.elem = .ok d) (hm : d.memberTypes[m]? = some t) (hn : h.registry.Sized t bs.length)
    (hp : h.Provides t bs) :
    (((h.put f.buffer (refSize + f.slotOffset i) bs).put f.buffer (refSize + f.slotOffset i + bs.length)
      (List.replicate (f.flags.slotSize - bs.length) 0)).put f.buffer (refSize + f.selectorOffset i)
        [UInt8.ofNat m]).Tidy := by
  have hs := ht.sound
  have hb := (hs.arrays ha).body
  have hi' := Nat.lt_of_lt_of_le hi hb.length_le
  have hend := slot_end_le hs ha hi
  have hreach := hs.arena.reach
  obtain ⟨-, -, -, -, hle⟩ := hb.member_sized hstorage hd (List.mem_of_getElem? hm) hn
  have hzeros := List.length_replicate (n := f.flags.slotSize - bs.length) (a := (0 : UInt8))
  rw [Nat.add_assoc] at horder ⊢
  have hbits : Rewrites (Cells f i (i + 1)) h (h.put f.buffer (refSize + f.slotOffset i) bs) :=
    (Rewrites.refl _ h).slot hs hb hi' (Nat.le_refl _) (by omega)
  refine ht.member horder (by simp) ha hi hstorage hd hm hn hp
    (hbits.slot hs hb hi' (Nat.le_add_right _ _) (by omega)) fun j hj => ?_
  rw [← Nat.add_assoc]
  rcases Nat.lt_or_ge j bs.length with hlt | hge
  · rw [byte_put_outside (.inl (by omega)), byte_put_inside (by omega) hlt, List.getElem?_eq_getElem hlt]
    rfl
  · rw [byte_put_zeros (by rw [length_put]; omega) (by omega) (by omega), List.getElem?_eq_none hge]
    rfl

/-- The bits of the member are written over zeros. -/
theorem elementScalar {m : Nat} (ht : h.Tidy)
    (horder : (((h.put f.buffer (refSize + f.slotOffset i) (List.replicate f.flags.slotSize 0)).put f.buffer
      (refSize + f.slotOffset i) bs).put f.buffer (refSize + f.selectorOffset i) [UInt8.ofNat m]).InOrder fun _ => True)
    (ha : h.IsArray a f) (hi : i < f.length) (hstorage : f.flags.storage = .selected)
    (hd : h.types.descriptor f.elem = .ok d) (hm : d.memberTypes[m]? = some t) (hn : h.registry.Sized t bs.length)
    (hp : h.Provides t bs) :
    (((h.put f.buffer (refSize + f.slotOffset i) (List.replicate f.flags.slotSize 0)).put f.buffer
      (refSize + f.slotOffset i) bs).put f.buffer (refSize + f.selectorOffset i) [UInt8.ofNat m]).Tidy := by
  have hs := ht.sound
  have hb := (hs.arrays ha).body
  have hi' := Nat.lt_of_lt_of_le hi hb.length_le
  have hend := slot_end_le hs ha hi
  have hreach := hs.arena.reach
  obtain ⟨-, -, -, -, hle⟩ := hb.member_sized hstorage hd (List.mem_of_getElem? hm) hn
  have hzeros := List.length_replicate (n := f.flags.slotSize) (a := (0 : UInt8))
  have hclear : Rewrites (Cells f i (i + 1)) h
      (h.put f.buffer (refSize + f.slotOffset i) (List.replicate f.flags.slotSize 0)) :=
    (Rewrites.refl _ h).slot hs hb hi' (Nat.le_refl _) (by omega)
  refine ht.member horder (by simp) ha hi hstorage hd hm hn hp
    (hclear.slot hs hb hi' (Nat.le_refl _) (by omega)) fun j hj => ?_
  rcases Nat.lt_or_ge j bs.length with hlt | hge
  · rw [byte_put_inside (by rw [length_put]; omega) hlt, List.getElem?_eq_getElem hlt]
    rfl
  · rw [byte_put_outside (.inr (by omega)), byte_put_zeros (by omega) (by omega) (by omega),
      List.getElem?_eq_none hge]
    rfl

theorem elementRef (ht : h.Tidy)
    (horder : ((h.putWord f.buffer (refSize + f.slotOffset i) w.offset).guarded f.buffer w).InOrder fun _ => True)
    (ha : h.IsArray a f) (hi : i < f.length) (hstorage : f.flags.storage = .references) :
    ((h.putWord f.buffer (refSize + f.slotOffset i) w.offset).guarded f.buffer w).Tidy := by
  have hs := ht.sound
  have hb := (hs.arrays ha).body
  have hi' := Nat.lt_of_lt_of_le hi hb.length_le
  have hr : Rewrites (Cells f i (i + 1)) h (h.putWord f.buffer (refSize + f.slotOffset i) w.offset) :=
    (Rewrites.refl _ h).slot hs hb hi' (Nat.le_refl _)
      (Nat.le_of_eq (by rw [LittleEndian.length_toBytes, hb.slotSize_references hstorage]))
  have harena := hr.arena hs.arena
  refine ht.of_slots horder ha (hr.trans (.guarded harena f.buffer w)) ?_ hi'
    fun _ _ _ _ hother => absurd hstorage hother
  rw [symbols_guarded harena, putWord_symbols]
  exact .refl _

theorem elementsCleared (ht : h.Tidy) (horder : (h.put f.buffer (refSize + f.slotOffset lo)
      (List.replicate ((hi - lo) * f.flags.slotSize) 0)).InOrder fun _ => True)
    (ha : h.IsArray a f) (hle : lo ≤ hi) (hhi : hi ≤ f.capacity) :
    (h.put f.buffer (refSize + f.slotOffset lo) (List.replicate ((hi - lo) * f.flags.slotSize) 0)).Tidy := by
  have hs := ht.sound
  have hb := (hs.arrays ha).body
  have hsize := hs.size_buffer hb.buffer
  obtain ⟨hlen, hend⟩ := hb.slots_end hle hhi
  have htop := hs.end_le_top hsize
  have hreach := hs.arena.reach
  have hzeros := List.length_replicate (n := (hi - lo) * f.flags.slotSize) (a := (0 : UInt8))
  have hr : Rewrites (Cells f lo hi) h
      (h.put f.buffer (refSize + f.slotOffset lo) (List.replicate ((hi - lo) * f.flags.slotSize) 0)) :=
    .put hs.arena hsize (by omega) fun j hj hj' => ⟨rfl, j - refSize, by omega, .inl ⟨by omega, by omega⟩⟩
  refine ht.cleared horder put_symbols ha hr hhi fun j hlo hhi => ?_
  exact byte_put_zeros (by omega) (by omega) (by omega)

/-- Selectors are cleared where slots are empty already. -/
theorem selectorsCleared (ht : h.Tidy)
    (horder : (h.put f.buffer (refSize + f.selectorOffset lo) (List.replicate (hi - lo) 0)).InOrder fun _ => True)
    (ha : h.IsArray a f) (hle : lo ≤ hi) (hhi : hi ≤ f.capacity) (hstorage : f.flags.storage = .selected)
    (hempty : ∀ j, f.slotOffset lo ≤ j → j < f.slotOffset hi → h.byte f.buffer (refSize + j) = 0) :
    (h.put f.buffer (refSize + f.selectorOffset lo) (List.replicate (hi - lo) 0)).Tidy := by
  have hs := ht.sound
  have hb := (hs.arrays ha).body
  have hend := hb.selector_end hstorage hhi
  have hbefore : f.slotOffset hi ≤ f.selectorOffset lo := f.slotOffset_le_selectorOffset hhi
  have hselectors : f.selectorOffset lo + (hi - lo) = f.selectorOffset hi := by
    simp only [ArrayInfo.selectorOffset]
    omega
  have hzeros := List.length_replicate (n := hi - lo) (a := (0 : UInt8))
  have hr : Rewrites (Cells f lo hi) h (h.put f.buffer (refSize + f.selectorOffset lo) (List.replicate (hi - lo) 0)) :=
    .put hs.arena (hs.size_buffer hb.buffer) (by omega) fun j hj hj' =>
      ⟨rfl, j - refSize, by omega, .inr ⟨hstorage, by omega, by omega⟩⟩
  refine ht.cleared horder put_symbols ha hr hhi fun j hlo hhi => ?_
  rw [byte_put_outside (.inl (by omega)), hempty j hlo hhi]

/-! ## Words of arrays -/

/-- The words of arrays change, and their slots in use are in normal form then. -/
theorem of_arrays (ht : h.Tidy) (horder : h'.InOrder fun _ => True) (hsymbols : h'.symbols = h.symbols)
    (hr : Rewrites S h h') (hS : ∀ w j, S w j → ∃ elem rank, h.ArrayType w elem rank)
    (hslots : ∀ {b g i j}, S b j → h'.IsArray b g → i < g.length → g.flags.storage ≠ .references →
      h'.NormalSlot g i) : h'.Tidy := by
  refine ht.of_rewrites horder hr (by rw [hsymbols]; exact .refl _) (fun {v j t d} hj hv hd hfixed => ?_)
    fun {b g i} hg hi hstorage hor => ?_
  · obtain ⟨elem, rank, t', d', r, hv', hd', hkind, -⟩ := hS v j hj
    cases hv.symm.trans hv'
    cases hd.symm.trans hd'
    rw [hkind] at hfixed
    cases hfixed
  · rcases hor with ⟨j, hj⟩ | ⟨hg, j, hj⟩
    · exact hslots hj hg hi hstorage
    · obtain ⟨elem, rank, htype⟩ := hS _ j hj
      exact absurd rfl (ht.sound.ne_buffer htype (ht.sound.arrays hg).body.buffer)

/-- What an array said about slots, before its words and the words of others changed, is true still. -/
theorem slot_kept (ht : h.Tidy) (hsymbols : h'.symbols = h.symbols) (hr : Rewrites S h h')
    (hS : ∀ w j, S w j → ∃ elem rank, h.ArrayType w elem rank) (ha : h.IsArray a f) (hi : i < f.length)
    (hstorage : f.flags.storage ≠ .references) : h'.NormalSlot f i := by
  have hs := ht.sound
  have hb := (hs.arrays ha).body
  refine (ht.elements ha hi hstorage).of_same hs hb (by rw [hsymbols]; exact .refl _)
    (hr.keeps.sameSlot hs hb (Nat.lt_of_lt_of_le hi hb.length_le) fun j _ hj => ?_)
  obtain ⟨elem, rank, htype⟩ := hS _ _ hj
  exact hs.ne_buffer htype hb.buffer rfl

/-- An array is built over an empty buffer. -/
theorem built (ht : h.Tidy) (horder : (h.putArray a f dims).InOrder fun _ => True)
    (type : h.ArrayType a f.elem dims.length) (body : h.BodySound f) (ndims : f.flags.ndims = dims.length)
    (count : elementCount dims = some f.length) (room : f.capacity < 0x10000000000000000)
    (words : ∀ d ∈ dims, d < 0x10000000000000000)
    (zero : ∀ j, j < h.word f.buffer 0 → h.byte f.buffer (refSize + j) = 0) : (h.putArray a f dims).Tidy := by
  have hs := ht.sound
  obtain ⟨s, hfirst⟩ := ht.first
  have harray := (arraySound_putArray hs type body ndims count room words).1
  have hr : Rewrites (fun w _ => w = a) h (h.putArray a f dims) := (putArray_writes hs type fun _ => rfl).toRewrites
  refine ht.of_arrays horder putWords_symbols hr (fun w _ hw => hw ▸ ⟨_, _, type⟩) fun {b g i _} hb hg hi hstorage => ?_
  subst hb
  cases harray.unique hg
  have hend := body.slot_end (Nat.lt_of_lt_of_le hi body.length_le)
  refine .zeros horder.sound (by rw [putArray, putWords_symbols]; exact hfirst) (horder.sound.arrays harray).body hi
    hstorage fun j hj => ?_
  rw [Nat.add_assoc, hr.bytes (hs.size_buffer body.buffer) (by omega) fun heq => hs.ne_buffer type body.buffer heq.symm]
  exact zero _ (by omega)

/-- A view of an array has the same slots. -/
theorem viewed (ht : h.Tidy) (horder : (h.putView a v f dims).InOrder fun _ => True) (array : h.IsArray a f)
    (type : h.ArrayType v f.elem dims.length) (other : a ≠ v) (count : elementCount dims = some f.length)
    (words : ∀ d ∈ dims, d < 0x10000000000000000) : (h.putView a v f dims).Tidy := by
  have hs := ht.sound
  have hcapacity := h.word_lt a capacityWord
  rw [array.capacity] at hcapacity
  have hviewed := arraySound_putView hs array type other count hcapacity words
  have hr : Rewrites (fun w _ => w = a ∨ w = v) h (h.putView a v f dims) :=
    (putView_writes hs array type (fun _ => .inr rfl) fun _ _ _ => .inl rfl).toRewrites
  have hsymbols : (h.putView a v f dims).symbols = h.symbols := by simp [putView, putArray]
  have hS (w : Value) (_ : Nat) (hw : w = a ∨ w = v) : ∃ elem rank, h.ArrayType w elem rank := by
    rcases hw with rfl | rfl
    · exact ⟨_, _, (hs.arrays array).type⟩
    · exact ⟨_, _, type⟩
  refine ht.of_arrays horder hsymbols hr hS fun {b g i _} hb hg hi hstorage => ?_
  have hslot (hbody : f.SameBody g) : (h.putView a v f dims).NormalSlot g i := by
    have hkept := ht.slot_kept hsymbols hr hS array (i := i) (by rw [← hbody.length]; exact hi)
      (by rw [← hbody.storage]; exact hstorage)
    exact hkept.sameBody horder.sound ((horder.sound.arrays hg).body.sameBody hbody.symm) hbody
  rcases hb with rfl | rfl
  · cases hviewed.1.1.unique hg
    exact hslot (sameBody_shared f)
  · cases hviewed.2.1.unique hg
    exact hslot (sameBody_viewOf f dims)

/-- An array moves to a buffer that holds the same in its slots. -/
theorem moved {buffer : Value} (ht : h.Tidy)
    (horder : ((h.putBuffer a buffer n).guarded a buffer).InOrder fun _ => True)
    (array : h.IsArray a f) (ndims : f.flags.ndims = 1) (body : h.BodySound { f with buffer, capacity := n })
    (room : n < 0x10000000000000000) (sole : ∀ {b g}, h.IsArray b g → g.buffer ≠ buffer)
    (same : ∀ i, i < f.length → SameSlot h f h { f with buffer, capacity := n } i) :
    ((h.putBuffer a buffer n).guarded a buffer).Tidy := by
  have hs := ht.sound
  have hr₁ : Rewrites (fun w _ => w = a) h (h.putBuffer a buffer n) :=
    (putBuffer_writes hs array ndims fun _ => rfl).toRewrites
  have hguarded : Rewrites (fun _ _ => False) (h.putBuffer a buffer n) _ := .guarded (hr₁.arena hs.arena) a buffer
  have hr := hr₁.trans (hguarded.mono fun _ _ => False.elim)
  have hmoved : ((h.putBuffer a buffer n).guarded a buffer).IsArray a { f with buffer, capacity := n } :=
    (hs.moved array ndims body room sole).isArray_guarded (arraySound_putBuffer hs array ndims body room).1
  have hsymbols : ((h.putBuffer a buffer n).guarded a buffer).symbols = h.symbols := by
    rw [symbols_guarded (hr₁.arena hs.arena)]
    simp [putBuffer]
  refine ht.of_arrays horder hsymbols hr (fun w _ hw => hw ▸ ⟨_, _, (hs.arrays array).type⟩)
    fun {b g i _} hb hg hi hstorage => ?_
  subst hb
  cases hmoved.unique hg
  have hslot : h.NormalSlot { f with buffer, capacity := n } i :=
    (ht.elements array hi hstorage).of_same hs (hs.arrays array).body (.refl _) (same i hi)
  refine hslot.of_same hs body (by rw [hsymbols]; exact .refl _)
    (hr.keeps.sameSlot hs body (Nat.lt_of_lt_of_le hi body.length_le) fun _ _ heq => ?_)
  exact hs.ne_buffer (hs.arrays array).type body.buffer heq.symm

/-- An array gets another length. Slots that it did not have before are empty. -/
theorem resized (ht : h.Tidy) (horder : (h.putLength a n).InOrder fun _ => True) (array : h.IsArray a f)
    (ndims : f.flags.ndims = 1) (body : h.BodySound { f with length := n }) : (h.putLength a n).Tidy := by
  have hs := ht.sound
  obtain ⟨s, hfirst⟩ := ht.first
  have hb := (hs.arrays array).body
  have hcapacity := h.word_lt a capacityWord
  rw [array.capacity] at hcapacity
  have hresized := (arraySound_putLength hs array ndims body (Nat.lt_of_le_of_lt body.length_le hcapacity)).1
  have hr : Rewrites (fun w _ => w = a) h (h.putLength a n) := (putLength_writes hs array ndims fun _ _ => rfl).toRewrites
  have hsymbols : (h.putLength a n).symbols = h.symbols := by simp [putLength]
  have hS (w : Value) (_ : Nat) (hw : w = a) : ∃ elem rank, h.ArrayType w elem rank :=
    hw ▸ ⟨_, _, (hs.arrays array).type⟩
  have hbody := (horder.sound.arrays hresized).body
  refine ht.of_arrays horder hsymbols hr hS fun {b g i _} hb' hg hi hstorage => ?_
  subst hb'
  cases hresized.unique hg
  by_cases hold : i < f.length
  · exact (ht.slot_kept hsymbols hr hS array hold hstorage).of_same horder.sound
      (hb.congr hr.extends fun j hj => hr.bytes (hs.size_buffer hb.buffer) hj fun heq =>
        hs.ne_buffer (hs.arrays array).type hb.buffer heq.symm) (.refl _)
      ⟨.refl _, rfl, rfl, rfl, fun _ _ => rfl, fun _ => rfl⟩
  · have hi' : i < f.capacity := Nat.lt_of_lt_of_le hi body.length_le
    have hend := hb.slot_end hi'
    have hslot := f.slot_end_le hi'
    have hbehind := f.slotOffset_mono (Nat.not_lt.1 hold)
    refine .zeros horder.sound (by rw [hsymbols]; exact hfirst) hbody hi hstorage fun j hj => ?_
    have hj : j < f.flags.slotSize := hj
    show (h.putLength _ n).byte f.buffer (refSize + f.slotOffset i + j) = 0
    rw [Nat.add_assoc, hr.bytes (hs.size_buffer hb.buffer) (by omega) fun heq =>
      hs.ne_buffer (hs.arrays array).type hb.buffer heq.symm]
    exact hb.vacant _ (.inl ⟨by omega, by omega⟩)

end Tidy

/-! ## Steps -/

/-- A step keeps a heap tidy. -/
theorem Step.tidy (step : Step S h h') (ht : h.Tidy) : h'.Tidy := by
  have hs := ht.sound
  have horder : h'.InOrder fun _ => True := ht.order.trail (.single (.step step)) fun _ _ _ => trivial
  have hsymbols := step.symbols hs
  cases step with
  | learns learns => exact ht.learned horder hsymbols learns
  | symbol s => exact ht.of_flags horder hsymbols (.withSymbols _ h _)
  | allocated descriptor size start room => exact ht.allocated horder descriptor size start room
  | bits type layout isBits length provided => exact ht.filled horder type layout isBits length provided
  | text type length =>
    exact ht.lengthy horder hsymbols type hs.descriptor_string rfl (ht.unused type (by decide))
      (.put hs.arena (hs.size_string type) (by omega) fun _ _ _ => rfl)
  | @vectorSlot v i x type index =>
    obtain ⟨n, hn, hle⟩ := hs.size_vector type
    have hr : Rewrites (fun w _ => w = v) h (h.putWord v (refSize * (i + 1)) x.offset) :=
      .putWord hs.arena hn (by rw [refSize] at hle ⊢; omega) fun _ _ _ => rfl
    exact ht.vector horder hsymbols type (hr.trans (.guarded (hr.arena hs.arena) v x))
  | vectorCleared type index =>
    obtain ⟨n, hn, hle⟩ := hs.size_vector type
    exact ht.vector horder hsymbols type (.putWord hs.arena hn (by rw [refSize] at hle ⊢; omega) fun _ _ _ => rfl)
  | vectorLength type le =>
    obtain ⟨n, hn, hle⟩ := hs.size_vector type
    exact ht.vector horder hsymbols type (.putWord hs.arena hn (by rw [refSize] at hle; omega) fun _ _ _ => rfl)
  | fieldRef type layout field outside => exact ht.fieldRef horder type layout field outside
  | fieldBits type layout field inline length provided =>
    exact ht.fieldBits horder type layout field inline length provided
  | arrayBuilt type body ndims _ count room words _ _ _ zero =>
    exact ht.built horder type body ndims count room words zero
  | arrayViewed array type other count words => exact ht.viewed horder array type other count words
  | arrayMoved array ndims _ body room sole _ same => exact ht.moved horder array ndims body room sole same
  | arrayLength array ndims _ body => exact ht.resized horder array ndims body
  | buffer type unused start stop =>
    exact ht.lengthy horder hsymbols type hs.descriptor_buffer rfl unused
      (.put hs.arena (hs.size_buffer type) stop fun _ _ _ => rfl)
  | elementRef array index storage => exact ht.elementRef horder array index storage
  | elementBits array index storage length provided => exact ht.flat horder array index storage length provided
  | elementMember array index storage union member length provided =>
    exact ht.elementMember horder array index storage union member length provided
  | elementScalar array index storage union member length provided =>
    exact ht.elementScalar horder array index storage union member length provided
  | elementsCleared array le room => exact ht.elementsCleared horder array le room
  | selectorsCleared array le room storage empty => exact ht.selectorsCleared horder array le room storage empty

theorem Move.tidy (move : Move S h h') (ht : h.Tidy) : h'.Tidy := by
  have horder : h'.InOrder fun _ => True := ht.order.trail (.single move) fun _ _ _ => trivial
  cases move with
  | step step => exact step.tidy ht
  | flags rewrites symbols => exact ht.of_flags horder (by rw [symbols]; exact .refl _) rewrites

theorem Trail.tidy (trail : Trail S h h') (ht : h.Tidy) : h'.Tidy :=
  trail.preserves ht.sound (fun move _ => move.tidy) ht

theorem symbols_fresh (config : HeapConfig) (barrier : Barrier) :
    (fresh config barrier).symbols = SymbolTable.ofList Builtin.names := by
  rw [fresh]

/-- A heap without objects is tidy. -/
theorem tidy_fresh (config : HeapConfig) (barrier : Barrier) : (fresh config barrier).Tidy where
  order := inOrder_fresh config barrier
  keys := by
    rw [symbols_fresh]
    exact builtin_names.1
  first := by
    rw [symbols_fresh]
    exact Option.isSome_iff_exists.1 builtin_names.2
  objects htype := by
    obtain ⟨n, hn⟩ := live_of_typeOf htype
    cases hn
  elements ha := by
    obtain ⟨n, hn⟩ := ha.live
    cases hn

end TypedHeap.Heap
