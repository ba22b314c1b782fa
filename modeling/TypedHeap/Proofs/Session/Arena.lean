import TypedHeap.Proofs.Session.Run

/-!
# How objects lie in the heaps that operations lead to

* `Heap.SizeByType`: the size of an object by its type, and by the length in front of it if it has one.
* `Heap.Placed`: an object lies where objects may lie, and its header says what it is.
* `Heap.LaidOut`: objects lie apart, memory is zero behind them, and the counters are right.

Main result: `Session.Reachable.laid_out`.
-/

namespace TypedHeap

open Heap

/-! ## Headers -/

/-- Four bits are flags. -/
theorem GcBits.toNat_ofNat {n : Nat} (hn : n < 16) : (ofNat n).toNat = n := by
  have hall : ∀ k < 16, (ofNat k).toNat = k := by decide
  exact hall n hn

/-- A header that names a type is the address of the type and flags of the collector. -/
theorem Header.eq_new_of_type? {x : Header} {t : TypeRef} (ht : x.type? = some t) : x = new t x.gc := by
  have haddr : t.addr = x.typeBits := by
    unfold type? TypeRef.ofAddr? at ht
    split at ht
    · have hindex := TypeRef.index_of_ofIndex? ht
      rw [TypeRef.addr, hindex]
      omega
    · cases ht
  have hflags := GcBits.toNat_ofNat (Nat.mod_lt x.word (by decide : 0 < 16))
  obtain ⟨n⟩ := x
  rw [new, gc, hflags, haddr, typeBits, Nat.sub_add_cancel (Nat.mod_le n 16)]

/-! ## The table of objects -/

namespace Heap

variable {h : Heap} {v : Value} {n : Nat} {t : TypeRef} {d : Descriptor}

namespace Arena

/-- Values are the offsets of the table. -/
theorem ofWord?_of_mem (ha : h.Arena) {p : Nat × Nat} (hp : p ∈ h.objects) :
    ∃ v, Value.ofWord? p.1 = some v ∧ v.offset = p.1 ∧ h.size? v = some p.2 := by
  have hpos := (ha.aligned p hp).1
  have hlt : p.1 < 0x10000000000000000 := by
    have h1 := ha.below p hp
    have h2 := ha.top_lt
    omega
  refine ⟨⟨p.1, hpos, hlt⟩, dif_pos ⟨hpos, hlt⟩, rfl, ?_⟩
  exact ha.size?_of_mem (v := ⟨p.1, hpos, hlt⟩) hp

/-- A part of the table, read as values: their offsets and sizes. -/
theorem filterMap_ofWord? (ha : h.Arena) {l : List (Nat × Nat)} (hl : ∀ p ∈ l, p ∈ h.objects) :
    ((l.map Prod.fst).filterMap Value.ofWord?).map Value.offset = l.map Prod.fst ∧
      ((l.map Prod.fst).filterMap Value.ofWord?).mapM h.objectSize = .ok (l.map Prod.snd) := by
  induction l with
  | nil => exact ⟨rfl, rfl⟩
  | cons p l ih =>
    rw [List.forall_mem_cons] at hl
    obtain ⟨hoffsets, hsizes⟩ := ih hl.2
    obtain ⟨v, hv, hoffset, hsize⟩ := ha.ofWord?_of_mem hl.1
    rw [List.map_cons, List.filterMap_cons_some hv, List.map_cons, List.map_cons, hoffset, hoffsets,
      mapM_eq_ok]
    exact ⟨rfl, .cons (objectSize_eq_ok.2 hsize) (mapM_eq_ok.1 hsizes)⟩

theorem values_offset (ha : h.Arena) : h.values.map Value.offset = h.objects.reverse.map Prod.fst :=
  (ha.filterMap_ofWord? fun _ => List.mem_reverse.1).1

theorem values_size (ha : h.Arena) :
    h.values.mapM h.objectSize = .ok (h.objects.reverse.map Prod.snd) :=
  (ha.filterMap_ofWord? fun _ => List.mem_reverse.1).2

theorem mem_values (ha : h.Arena) : v ∈ h.values ↔ ∃ n, h.objectSize v = .ok n := by
  have hmem : v ∈ h.values ↔ v.offset ∈ h.values.map Value.offset := by
    rw [List.mem_map]
    exact ⟨fun hv => ⟨v, hv, rfl⟩, fun ⟨w, hw, heq⟩ => Value.ext heq ▸ hw⟩
  rw [hmem, ha.values_offset, List.mem_map]
  constructor
  · rintro ⟨p, hp, hv⟩
    have hp : (v.offset, p.2) ∈ h.objects := by rw [← hv]; exact List.mem_reverse.1 hp
    exact ⟨p.2, objectSize_eq_ok.2 (ha.size?_of_mem hp)⟩
  · rintro ⟨n, hn⟩
    exact ⟨(v.offset, n), List.mem_reverse.2 (mem_of_size? (objectSize_eq_ok.1 hn)), rfl⟩

theorem values_nodup (ha : h.Arena) : h.values.Nodup := by
  have hoffsets : (h.objects.map Prod.fst).Nodup :=
    List.pairwise_map.2 (ha.ordered.imp fun hbehind => by omega)
  have hvalues : (h.values.map Value.offset).Nodup := by
    rw [ha.values_offset, List.map_reverse]
    exact List.nodup_reverse.2 hoffsets
  exact hvalues.of_map _

end Arena

/-! ## Types and sizes -/

theorem header_of_typeOf (ht : h.typeOf v = .ok t) : ∃ g, h.header v = .ok (Header.new t g) := by
  obtain ⟨hv, hend, htype, -⟩ := typeOf_eq_ok.1 ht
  refine ⟨(h.headerOf v).gc, ?_⟩
  rw [← Header.eq_new_of_type? htype]
  exact header_eq_ok.2 ⟨hv, hend, rfl⟩

/-- The size that a type asks for, given the length in front of the payload if it has one. -/
def SizeByType (h : Heap) (v : Value) (d : Descriptor) (n : Nat) : Prop :=
  match d.kind with
  | .abstract | .union => False
  | .string | .buffer => ∃ len, h.readWord v.offset = .ok len ∧ n = refSize + len
  | .simpleVector => ∃ len, h.readWord v.offset = .ok len ∧ refSize + refSize * len ≤ n
  | .primitive .. | .struct | .tuple | .array => ∃ l, (Heap.layout d.ref).runOn h = (.ok l, h) ∧ n = l.size

/-- An object of `n` bytes lies at a multiple of sixteen below the top, behind a header that names a
type which objects can have, and its size is the one that the type asks for. -/
structure Placed (h : Heap) (v : Value) (n : Nat) : Prop where
  aligned : 0 < v.offset ∧ v.offset % payloadAlign = 0
  front : headerSize ≤ v.offset
  below : v.offset + n ≤ h.top
  typed : ∃ t g d, h.header v = .ok (Header.new t g) ∧ h.types.descriptor t = .ok d ∧
    d.kind.isInstantiable = true ∧ h.SizeByType v d n

/-- How objects lie in memory, and what the counters say. -/
structure LaidOut (h : Heap) : Prop where
  placed : ∀ v n, h.objectSize v = .ok n → h.Placed v n
  /-- Objects have no byte in common, headers included. -/
  apart : ∀ v n w m, h.objectSize v = .ok n → h.objectSize w = .ok m → v ≠ w →
    v.offset + n ≤ w.offset - headerSize ∨ w.offset + m ≤ v.offset - headerSize
  top_le : h.top ≤ h.stats.capacityBytes
  capacity : h.stats.capacityBytes = h.memory.length
  limit : h.memory.length ≤ h.config.maxBytes.toNat
  vacant : ∀ i, h.top ≤ i → h.memory.get i = 0
  /-- The list of objects has every object once. -/
  listed : h.values.Nodup ∧ ∀ v, v ∈ h.values ↔ ∃ n, h.objectSize v = .ok n
  objects : h.stats.objects = h.values.length
  allocated : ∃ sizes, h.values.mapM h.objectSize = .ok sizes ∧
    h.stats.allocatedBytes = (sizes.map (· + headerSize)).sum

theorem Sound.sizeByType (hs : h.Sound) (ht : h.typeOf v = .ok t) (hd : h.types.descriptor t = .ok d)
    (hn : h.size? v = some n) : d.kind.isInstantiable = true ∧ h.SizeByType v d n := by
  obtain ⟨m, hm, hshape⟩ := hs.shaped_of_typeOf ht hd
  rw [hn] at hm
  cases hm
  have hread (hlength : hasLength d.kind = true) : h.readWord v.offset = .ok (h.word v 0) := by
    have hroom := hshape.le_of_hasLength hlength
    have hend := hs.end_le_top hn
    rw [refSize] at hroom
    exact readWord_eq (k := 0) (by omega)
  have hlayout {l : Layout} (hl : h.registry.layouts.find? t = some l) :
      (Heap.layout d.ref).runOn h = (.ok l, h) := by
    rw [hs.registry.types.ref_eq hd]
    exact runOn_layout hs.registry hl
  unfold Shaped at hshape
  unfold SizeByType
  cases hkind : d.kind <;> simp only [hkind] at hshape hread ⊢
  case string | buffer => exact ⟨rfl, _, hread rfl, hshape⟩
  case simpleVector => exact ⟨rfl, _, hread rfl, hshape⟩
  all_goals
    obtain ⟨l, hl, hsize⟩ := hshape
    exact ⟨rfl, l, hlayout hl, hsize⟩

theorem Sound.placed (hs : h.Sound) (hn : h.size? v = some n) : h.Placed v n := by
  obtain ⟨t, d, ht, hd, -⟩ := hs.shaped hn
  obtain ⟨g, hheader⟩ := header_of_typeOf ht
  have hge := hs.arena.offset_ge ⟨n, hn⟩
  refine ⟨⟨v.pos, hs.arena.offset_mod ⟨n, hn⟩⟩, ?_, hs.end_le_top hn, t, g, d, hheader, hd, ?_⟩
  · rw [headerSize]
    omega
  · exact hs.sizeByType ht hd hn

theorem Sound.laidOut (hs : h.Sound) : h.LaidOut where
  placed _ _ hn := hs.placed (objectSize_eq_ok.1 hn)
  apart v n w m hn hm hne := by
    have hn := objectSize_eq_ok.1 hn
    have hm := objectSize_eq_ok.1 hm
    have hv := hs.arena.offset_ge ⟨n, hn⟩
    have hw := hs.arena.offset_ge ⟨m, hm⟩
    have hdisj := hs.arena.disjoint hn hm hne
    rw [headerSize]
    omega
  top_le := by rw [hs.arena.capacity]; exact hs.arena.reach
  capacity := hs.arena.capacity
  limit := hs.arena.limit
  vacant := hs.arena.vacant
  listed := ⟨hs.arena.values_nodup, fun _ => hs.arena.mem_values⟩
  objects := by
    have hlength := congrArg List.length hs.arena.values_offset
    rw [List.length_map, List.length_map, List.length_reverse] at hlength
    rw [hs.arena.count, hlength]
  allocated := by
    refine ⟨_, hs.arena.values_size, ?_⟩
    rw [hs.arena.allocated, List.map_map, List.map_reverse, List.sum_reverse]
    rfl

end Heap

/-! ## Sessions -/

namespace Session

variable {s : Session}

/-- In every heap that operations lead to, whatever sizes it was made with, objects lie as they should. -/
theorem Reachable.laid_out (hs : Reachable s) : s.heap.LaidOut := hs.sound.heap.laidOut

/-- A buffer, one that there was no room for, and a string. -/
def crowded : Session :=
  start ⟨0, 100⟩ .off |>.next (.newBuffer 5) |>.next (.newBuffer 50) |>.next (.newString "ab")

theorem laid_out_crowded :
    Reachable crowded ∧ crowded.heap.LaidOut ∧ crowded.heap.top = 58 ∧
      crowded.heap.stats.objects = 2 := by
  have hs : Reachable crowded :=
    (((reachable_start _ _).next _ (by nofun)).next _ (by nofun)).next _ (by nofun)
  exact ⟨hs, hs.laid_out, by decide +kernel, by decide +kernel⟩

end Session

end TypedHeap
