import TypedHeap.Proofs.Heap.Payloads
import TypedHeap.Proofs.Session.Arena

/-!
# Allocation, decided

Whether an object is made depends on its size and on the limit only, not on how much memory the heap has got so
far. An object that is made is all zero but for its length, and one that is not leaves no trace.

* `Heap.Granted`: a heap has one object more.
* `Heap.Refused`: a heap has no object more.
* `Heap.Allots`: which of the two becomes of an allocation.
* `Heap.InWords`: what an allocation computes with fits in words.

Main result: `Session.Reachable.allocation_decided`.
-/

namespace TypedHeap

namespace Heap

variable {h h' : Heap} {v w : Value} {t : TypeRef} {d : Descriptor} {n extra : Nat}

/-! ## What is granted -/

/-- The payload of a new object: its length if its kind has one, and zeros. -/
def initial (kind : TypeKind) (extra n : Nat) : List UInt8 :=
  if hasLength kind then LittleEndian.toBytes refSize extra ++ List.replicate (n - refSize) 0 else List.replicate n 0

/-- A heap has one object more, which starts at the first suitable offset behind the others. Its header says its
type and no flag, its payload says its length, and nothing else is different. -/
structure Granted (h h' : Heap) (v : Value) (t : TypeRef) (extra n : Nat) : Prop where
  start : v.offset = alignUp (h.top + headerSize) payloadAlign
  fresh : ¬h.Live v
  objects : h'.objects = (v.offset, n) :: h.objects
  top : h'.top = v.offset + n
  type : h'.typeOf v = .ok t
  header : h'.header v = .ok (Header.new t GcBits.none)
  payload : ∀ d, h.types.descriptor t = .ok d → h'.payload v = .ok (initial d.kind extra n)
  others : ∀ w m, h.objectSize w = .ok m →
    h'.objectSize w = .ok m ∧ h'.header w = h.header w ∧ h'.payload w = h.payload w
  count : h'.stats.objects = h.stats.objects + 1
  allocatedBytes : h'.stats.allocatedBytes = h.stats.allocatedBytes + (n + headerSize)
  barrier : h'.barrier = h.barrier ∧ h'.stats.barrierHits = h.stats.barrierHits
  symbols : h'.symbols = h.symbols
  config : h'.config = h.config

theorem window_append (m : Memory) (off a b : Nat) :
    m.window off (a + b) = m.window off a ++ m.window (off + a) b := by
  simp only [Memory.window, List.range_add, List.map_append, List.map_map]
  congr 1
  refine List.map_congr_left fun k _ => ?_
  rw [Function.comp_apply, Nat.add_assoc]

theorem window_eq_initial {kind : TypeKind} (hfit : hasLength kind = true → refSize ≤ n)
    (hlength : hasLength kind = true → h.memory.window v.offset refSize = LittleEndian.toBytes refSize extra)
    (hzero : ∀ k, (hasLength kind = true → refSize ≤ k) → h.byte v k = 0) :
    h.memory.window v.offset n = initial kind extra n := by
  unfold initial
  split
  · rename_i hkind
    obtain ⟨m, rfl⟩ := Nat.exists_eq_add_of_le (hfit hkind)
    rw [window_append, hlength hkind, Nat.add_sub_cancel_left]
    exact congrArg _ (window_eq_zeros fun j _ => hzero _ fun _ => Nat.le_add_right _ _)
  · rename_i hkind
    exact window_eq_zeros (k := 0) fun j _ => hzero _ fun hlength => absurd hlength hkind

theorem header_eq (hv : h.Live v) (ha : h.Arena) : h.header v = .ok (h.headerOf v) :=
  header_eq_ok.2 ⟨hv, ha.header_end_le hv, rfl⟩

/-- The first word of a new object is the length, if its kind has one. -/
theorem window_allocated (hs : h.Sound) (hd : h.types.descriptor t = .ok d) (hn : h.SizeFor d extra n)
    (hv : v.offset = h.nextStart) (hend : v.offset + n ≤ h.limit) (hlength : hasLength d.kind = true) :
    (h.allocated v d extra n).memory.window v.offset refSize = LittleEndian.toBytes refSize extra := by
  have hfit := (hn.word_lt hlength).2
  have hplaced := placed_added (t := d.ref) hs.arena hv hend
    (TypeTable.contains_iff.2 ⟨d, by rw [hs.registry.types.ref_eq hd]; exact hd⟩)
  have hreach := hplaced.arena.reach
  rw [placed_top] at hreach
  have hbytes := LittleEndian.length_toBytes 8 extra
  unfold allocated
  rw [if_pos hlength]
  exact window_put (k := 0) (by rw [hbytes]; rw [refSize] at hfit; omega) hbytes

theorem allocated_stats : (h.allocated v d extra n).stats = (h.placed v d.ref n).stats := by
  unfold allocated
  split
  · exact put_stats
  · rfl

theorem granted_allocated (hs : h.Sound) (hl : h.Learns h') (hd : h'.types.descriptor t = .ok d)
    (hn : h'.SizeFor d extra n) (hv : v.offset = h'.nextStart) (hend : v.offset + n ≤ h'.limit) :
    Granted h (h'.allocated v d extra n) v t extra n := by
  have hs' := hs.learns hl
  have hadded := allocated_added hs' hd hn hv hend
  have hsound := hs'.allocated hd hn hv hend
  have hnew := newObject_allocated hs hl hd hn hv hend
  have hsize : (h'.allocated v d extra n).size? v = some n := by rw [hadded.size?, if_pos rfl]
  have hlive := live_of_typeOf hadded.typeOf
  have hdesc {e : Descriptor} (he : h.types.descriptor t = .ok e) : e = d :=
    Except.ok.inj ((hl.extends.descriptor he).symm.trans hd)
  refine ⟨?_, hnew.fresh, ?_, ?_, hadded.typeOf, ?_, fun e he => ?_, fun w m hm => ?_, ?_, ?_, ⟨?_, ?_⟩, ?_, ?_⟩
  · rw [hv, hl.nextStart_eq.1]
    rfl
  · obtain ⟨r, -, rfl⟩ := hl
    exact hadded.objects
  · exact allocated_top
  · rw [header_eq hlive hadded.arena, Header.eq_new_of_type? (typeOf_eq_ok.1 hadded.typeOf).2.2.1, hadded.gc]
  · rw [hdesc he, hsound.payload_eq hsize]
    congr 1
    exact window_eq_initial (fun hlength => (hn.word_lt hlength).2) (window_allocated hs' hd hn hv hend)
      fun k hk => byte_allocated hs'.arena hv hk
  · have hm := objectSize_eq_ok.1 hm
    have hw : h.Live w := ⟨m, hm⟩
    have hm' := hnew.kept.size? hm
    refine ⟨objectSize_eq_ok.2 hm', ?_, hs.payload_kept hsound hnew.kept hw fun _ => id⟩
    have hlearned : h'.headerOf w = h.headerOf w := by obtain ⟨r, -, rfl⟩ := hl; rfl
    rw [header_eq ⟨m, hm'⟩ hadded.arena, header_eq hw hs.arena, hadded.headers w (hl.extends.live hw), hlearned]
  · obtain ⟨r, -, rfl⟩ := hl
    rw [allocated_stats]
    exact placed_count
  · obtain ⟨r, -, rfl⟩ := hl
    rw [allocated_stats]
    exact placed_allocatedBytes
  · obtain ⟨r, -, rfl⟩ := hl
    exact hadded.queue
  · obtain ⟨r, -, rfl⟩ := hl
    exact hadded.hits
  · rw [allocated_symbols, hl.symbols]
  · obtain ⟨r, -, rfl⟩ := hl
    exact allocated_config

/-! ## What is refused -/

/-- At most layouts were remembered. -/
structure Refused (h h' : Heap) : Prop where
  objects : h'.objects = h.objects
  memory : h'.memory = h.memory
  top : h'.top = h.top
  stats : h'.stats = h.stats
  barrier : h'.barrier = h.barrier
  symbols : h'.symbols = h.symbols
  config : h'.config = h.config

theorem Learns.refused (hl : h.Learns h') : Refused h h' := by
  obtain ⟨r, -, rfl⟩ := hl
  exact ⟨rfl, rfl, rfl, rfl, rfl, rfl, rfl⟩

/-- What becomes of an allocation: an object if its size is known and it ends within the limit, and nothing
otherwise. -/
structure Allots (h : Heap) (t : TypeRef) (extra : Nat) : Prop where
  decided : ∀ n, h.Takes t extra n →
    ((∃ v, ((allocate t extra).runOn h).1 = .ok v) ↔ alignUp (h.top + headerSize) payloadAlign + n ≤ h.limit)
  granted : ∀ v h', (allocate t extra).runOn h = (.ok v, h') → ∃ n, h.Takes t extra n ∧ Granted h h' v t extra n
  refused : ∀ e h', (allocate t extra).runOn h = (.error e, h') → Refused h h' ∧
    ∀ n, h.Takes t extra n → e = .outOfMemory (min (n + headerSize) maxWord) h.limit

/-- A size that is known decides. -/
theorem Takes.outcome (hn : h.Takes t extra n) (hs : h.Sound) :
    (h.nextStart + n ≤ h.limit ∧ ∃ v h', (allocate t extra).runOn h = (.ok v, h') ∧ Granted h h' v t extra n) ∨
    (h.limit < h.nextStart + n ∧ ∃ h', Refused h h' ∧
      (allocate t extra).runOn h = (.error (.outOfMemory (min (n + headerSize) maxWord) h.limit), h')) := by
  obtain ⟨d, h₁, hl, hd, hsize, hrun⟩ := hn.runOn_allocate hs
  obtain ⟨hstart, hlimit⟩ := hl.nextStart_eq
  rw [hrun, ← hstart, ← hlimit]
  rcases Nat.lt_or_ge h₁.limit (h₁.nextStart + n) with hfull | hroom
  · exact .inr ⟨hfull, h₁, hl.refused, runOn_place_error hfull⟩
  · have hplaced : ∃ v : Value, v.offset = h₁.nextStart ∧
        (place d t extra n).runOn h₁ = (.ok v, h₁.allocated v d extra n) :=
      runOn_place ((hs.learns hl).registry.types.ref_eq hd) (fun hlength => (hsize.word_lt hlength).2) hroom
    obtain ⟨v, hv, hplace⟩ := hplaced
    exact .inl ⟨hroom, v, _, hplace, granted_allocated hs hl hd hsize hv (hv ▸ hroom)⟩

theorem Sound.allots (hs : h.Sound) (t : TypeRef) (extra : Nat) : h.Allots t extra := by
  by_cases hsized : ∃ n, h.Takes t extra n
  · obtain ⟨n, hn⟩ := hsized
    have hunique {m : Nat} (hm : h.Takes t extra m) : m = n := hn.unique hm hs
    rcases hn.outcome hs with ⟨hroom, v, h', hrun, hgranted⟩ | ⟨hfull, h', hrefused, hrun⟩
    · refine ⟨fun m hm => ⟨fun _ => hunique hm ▸ hroom, fun _ => ⟨v, congrArg Prod.fst hrun⟩⟩, fun w h'' heq => ?_,
        fun e h'' heq => ?_⟩
      · cases hrun.symm.trans heq
        exact ⟨n, hn, hgranted⟩
      · cases hrun.symm.trans heq
    · refine ⟨fun m hm => ⟨fun ⟨v, hv⟩ => ?_, fun hroom => ?_⟩, fun w h'' heq => ?_, fun e h'' heq => ?_⟩
      · rw [hrun] at hv
        cases hv
      · rw [hunique hm] at hroom
        exact absurd hroom (Nat.not_le.2 hfull)
      · cases hrun.symm.trans heq
      · cases hrun.symm.trans heq
        exact ⟨hrefused, fun m hm => by rw [hunique hm]⟩
  · have hnone (n : Nat) (hn : h.Takes t extra n) : False := hsized ⟨n, hn⟩
    obtain ⟨e, h₁, hl, hrun⟩ := runOn_allocate_unsized hs hnone
    refine ⟨fun n hn => (hnone n hn).elim, fun v h' heq => ?_, fun e' h' heq => ?_⟩
    · cases hrun.symm.trans heq
    · cases hrun.symm.trans heq
      exact ⟨hl.refused, fun n hn => (hnone n hn).elim⟩

/-! ## Words -/

/-- The place of the next object, the memory that a heap grows to and the bytes that it counts are small numbers. -/
structure InWords (h : Heap) : Prop where
  /-- With sums that must fit in a word and cleared bits, the place is the first suitable multiple. -/
  found : (do Word.alignUp (← Word.add h.top headerSize) payloadAlign) = .ok h.nextStart
  start : h.nextStart < 2 ^ 63
  doubled : h.memory.length * 2 < 2 ^ 63
  counted : h.stats.allocatedBytes ≤ h.top

/-- Objects that lie apart below a bound, headers included, take no more bytes than that. -/
theorem sum_sizes_le {l : List (Nat × Nat)} {b : Nat} (hfront : ∀ p ∈ l, headerSize ≤ p.1)
    (hordered : l.Pairwise fun p q => q.1 + q.2 + 8 ≤ p.1) (hbelow : ∀ p ∈ l, p.1 + p.2 ≤ b) :
    (l.map fun p => p.2 + headerSize).sum ≤ b := by
  induction l generalizing b with
  | nil => exact Nat.zero_le b
  | cons p l ih =>
    rw [List.forall_mem_cons] at hfront hbelow
    obtain ⟨hbehind, hrest⟩ := List.pairwise_cons.1 hordered
    have hsum := ih (b := p.1 - headerSize) hfront.2 hrest fun q hq => by
      have hq := hbehind q hq
      rw [headerSize]
      omega
    rw [List.map_cons, List.sum_cons]
    omega

theorem Arena.inWords (ha : h.Arena) (hmax : h.limit < 2 ^ 62) : h.InWords where
  found := by
    have hreach := ha.reach
    have hlimit := ha.limit
    have hpower : payloadAlign = 2 ^ 4 := rfl
    have hlt : h.top + headerSize + payloadAlign < 2 ^ 64 := by
      rw [headerSize, payloadAlign]
      omega
    rw [Word.add_of_lt (by omega)]
    exact (Word.alignUp_eq_ok hpower).2 ⟨hlt, rfl⟩
  start := by
    have hreach := ha.reach
    have hlimit := ha.limit
    have hbounds := h.nextStart_bounds
    omega
  doubled := by
    have hlimit := ha.limit
    omega
  counted := by
    rw [ha.allocated]
    refine sum_sizes_le (fun p hp => ?_) ha.ordered ha.below
    obtain ⟨hpos, hmod⟩ := ha.aligned p hp
    rw [headerSize]
    omega

end Heap

/-! ## Sessions -/

namespace Session

open Heap

variable {s : Session}

/-- In every heap with a sensible limit that operations lead to, the place of the next object is found within words,
and an allocation of any type and length is granted or refused by the rules. -/
theorem Reachable.allocation_decided (hs : Reachable s) (hmax : s.heap.limit < 2 ^ 62) :
    s.heap.InWords ∧ ∀ t extra, s.heap.Allots t extra :=
  ⟨hs.sound.heap.arena.inWords hmax, hs.sound.heap.allots⟩

/-- A buffer of five bytes, in a heap whose limit is a hundred bytes. -/
def narrow : Session := start ⟨0, 100⟩ .off |>.next (.newBuffer 5)

/-- There is room for 44 bytes more, and not for 45. -/
theorem allocation_decided_narrow : Reachable narrow ∧ narrow.heap.limit < 2 ^ 62 ∧
    narrow.heap.Takes Builtin.buffer 44 52 ∧ narrow.heap.Takes Builtin.buffer 45 53 ∧
    narrow.heap.InWords ∧ (∃ v, ((allocate Builtin.buffer 44).runOn narrow.heap).1 = .ok v) ∧
    ¬∃ v, ((allocate Builtin.buffer 45).runOn narrow.heap).1 = .ok v := by
  have hs : Reachable narrow := (reachable_start _ _).next _ (by nofun)
  have hmax : narrow.heap.limit < 2 ^ 62 := by decide +kernel
  have htop : narrow.heap.top = 29 ∧ narrow.heap.limit = 100 := by decide +kernel
  have hd := hs.sound.heap.descriptor_buffer
  have hfits : narrow.heap.Takes Builtin.buffer 44 52 := .bytes hd (.inr rfl) (by decide)
  have hlarge : narrow.heap.Takes Builtin.buffer 45 53 := .bytes hd (.inr rfl) (by decide)
  obtain ⟨hwords, hallots⟩ := hs.allocation_decided hmax
  refine ⟨hs, hmax, hfits, hlarge, hwords, ((hallots _ _).decided 52 hfits).2 ?_, fun hok => ?_⟩
  · rw [htop.1, htop.2]
    decide
  · have hroom := ((hallots _ _).decided 53 hlarge).1 hok
    rw [htop.1, htop.2] at hroom
    exact absurd hroom (by decide)

end Session

end TypedHeap
