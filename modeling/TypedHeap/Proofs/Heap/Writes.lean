import TypedHeap.Proofs.Heap.Objects
import TypedHeap.Proofs.Types.Subtype

/-!
# Changes of payloads and headers

* `Heap.put`, `putWord`, `putWords`: the heap after bytes of one payload were overwritten.
* `Heap.setHeader`: the heap after a header was overwritten.
* `Heap.runOn_writeBytes`, `runOn_copyBytes`, …: runs of what overwrites bytes.
* `Heap.Rewrites S`: payload bytes changed in places that `S` names, and collector's flags anywhere.
  Everything else is as before.
* `Heap.Writes S`: the same by anybody but the collector.
* `Heap.Extends`, `Heap.Keeps S`: what also holds when objects, types and layouts were added.

Main results: `Rewrites.put`, `Rewrites.arena`, `Rewrites.keeps`.
-/

namespace TypedHeap.Heap

variable {h h' h'' : Heap} {v w : Value} {n m j k : Nat} {t : TypeRef} {bs : List UInt8}

/-! ## Overwriting payloads -/

/-- The heap with other bytes in a payload from an offset on. -/
def put (h : Heap) (v : Value) (k : Nat) (bs : List UInt8) : Heap :=
  { h with memory := h.memory.write (v.offset + k) bs }

section Put

@[simp] theorem put_registry : (h.put v k bs).registry = h.registry := rfl

@[simp] theorem put_symbols : (h.put v k bs).symbols = h.symbols := rfl

@[simp] theorem put_config : (h.put v k bs).config = h.config := rfl

@[simp] theorem put_top : (h.put v k bs).top = h.top := rfl

@[simp] theorem put_objects : (h.put v k bs).objects = h.objects := rfl

@[simp] theorem put_barrier : (h.put v k bs).barrier = h.barrier := rfl

@[simp] theorem put_stats : (h.put v k bs).stats = h.stats := rfl

theorem put_memory : (h.put v k bs).memory = h.memory.write (v.offset + k) bs := rfl

end Put

/-! Only these equations are meant to look into `put`. -/

attribute [irreducible] put

/-- The heap with another word in a payload at an offset. -/
def putWord (h : Heap) (v : Value) (k n : Nat) : Heap := h.put v k (LittleEndian.toBytes 8 n)

/-- The heap with other words in a payload from an offset on. -/
def putWords (h : Heap) (v : Value) (k : Nat) : List Nat → Heap
  | [] => h
  | n :: ns => (h.putWord v k n).putWords v (k + 8) ns

theorem byte_put_of_outside (hj : w.offset + j < v.offset + k ∨ v.offset + k + bs.length ≤ w.offset + j) :
    (h.put v k bs).byte w j = h.byte w j := by
  rw [byte, put_memory, Memory.get_write_of_not_mem _ hj, byte]

theorem byte_put_outside (hj : j < k ∨ k + bs.length ≤ j) : (h.put v k bs).byte v j = h.byte v j :=
  byte_put_of_outside (by omega)

theorem byte_put_inside (hend : v.offset + k + bs.length ≤ h.memory.length) (hj : j < bs.length) :
    (h.put v k bs).byte v (k + j) = bs[j] := by
  have hsub : v.offset + (k + j) - (v.offset + k) = j := by omega
  rw [byte, put_memory, Memory.get_write, if_pos ⟨by omega, by omega⟩, hsub, List.getElem?_eq_getElem hj]
  rfl

theorem byte_put_zeros (hend : v.offset + k + n ≤ h.memory.length) (hlo : k ≤ j) (hhi : j < k + n) :
    (h.put v k (List.replicate n 0)).byte v j = 0 := by
  have hlen := List.length_replicate (n := n) (a := (0 : UInt8))
  obtain ⟨m, rfl⟩ := Nat.exists_eq_add_of_le hlo
  rw [byte_put_inside (by rw [hlen]; exact hend) (by omega), List.getElem_replicate]

/-- What was written is read back. -/
theorem window_put (hend : v.offset + k + bs.length ≤ h.memory.length) (hn : bs.length = n) :
    (h.put v k bs).memory.window (v.offset + k) n = bs := by
  subst hn
  rw [put_memory, Memory.window_write_self _ _ _ hend]

theorem window_put_outside (hout : k + n ≤ m ∨ m + bs.length ≤ k) :
    (h.put v m bs).memory.window (v.offset + k) n = h.memory.window (v.offset + k) n := by
  rw [put_memory, Memory.window_write_of_disjoint _ (by omega)]

theorem word_put_outside (hk : m + 8 ≤ k ∨ k + bs.length ≤ m) : (h.put v k bs).word v m = h.word v m :=
  word_congr fun _ _ _ => byte_put_outside (by omega)

theorem word_putWord (hend : v.offset + k + 8 ≤ h.memory.length) (hn : n < 0x10000000000000000) :
    (h.putWord v k n).word v k = n := by
  have hlen : (LittleEndian.toBytes 8 n).length = 8 := LittleEndian.length_toBytes 8 n
  have hwindow := Memory.window_write_self h.memory (v.offset + k) (LittleEndian.toBytes 8 n)
    (by rw [hlen]; exact hend)
  rw [hlen] at hwindow
  rw [word, putWord, put_memory, hwindow, LittleEndian.ofBytes_toBytes_of_lt (by rw [LittleEndian.count_eight]; exact hn)]

theorem slot_putWord {x : Option Value} (hend : v.offset + k + 8 ≤ h.memory.length) :
    (h.putWord v k (Value.toWord x)).slot v k = x := by
  rw [slot, word_putWord hend (Value.toWord_lt x), Value.ofWord?_toWord]

theorem byte_putWord_outside (hj : j < k ∨ k + 8 ≤ j) : (h.putWord v k n).byte v j = h.byte v j :=
  byte_put_outside (by rw [LittleEndian.length_toBytes]; exact hj)

theorem word_putWord_outside (hm : m + 8 ≤ k ∨ k + 8 ≤ m) : (h.putWord v k n).word v m = h.word v m :=
  word_put_outside (by rw [LittleEndian.length_toBytes]; exact hm)

@[simp] theorem length_put : (h.put v k bs).memory.length = h.memory.length := by
  rw [put_memory, Memory.length_write]

@[simp] theorem length_putWord : (h.putWord v k n).memory.length = h.memory.length := length_put

theorem byte_putWords_outside {ns : List Nat} (hj : j < k ∨ k + 8 * ns.length ≤ j) :
    (h.putWords v k ns).byte v j = h.byte v j := by
  induction ns generalizing h k with
  | nil => rfl
  | cons n ns ih =>
    rw [List.length_cons] at hj
    rw [putWords, ih (by omega), byte_putWord_outside (by omega)]

theorem word_putWords {ns : List Nat} (hend : v.offset + k + 8 * ns.length ≤ h.memory.length)
    (hlt : ∀ n ∈ ns, n < 0x10000000000000000) (hj : j < ns.length) :
    (h.putWords v k ns).word v (k + 8 * j) = ns[j] := by
  induction ns generalizing h k j with
  | nil => cases hj
  | cons n ns ih =>
    rw [List.length_cons] at hend
    rw [List.forall_mem_cons] at hlt
    rw [putWords]
    cases j with
    | zero =>
      have hfirst : (h.putWord v k n).word v k = n := word_putWord (by omega) hlt.1
      have hrest : ((h.putWord v k n).putWords v (k + 8) ns).word v k = (h.putWord v k n).word v k :=
        word_congr fun i _ _ => byte_putWords_outside (by omega)
      exact hrest.trans hfirst
    | succ j =>
      have hlen : j < ns.length := by simpa using hj
      have hrest := ih (h := h.putWord v k n) (k := k + 8) (by rw [length_putWord]; omega) hlt.2 hlen
      have hk : k + 8 * (j + 1) = k + 8 + 8 * j := by omega
      rw [hk, hrest, List.getElem_cons_succ]

theorem putWords_append {ns ms : List Nat} :
    h.putWords v k (ns ++ ms) = (h.putWords v k ns).putWords v (k + 8 * ns.length) ms := by
  induction ns generalizing h k with
  | nil => rfl
  | cons n ns ih =>
    rw [List.cons_append, putWords, ih, putWords, List.length_cons, Nat.mul_succ, Nat.add_assoc,
      Nat.add_comm 8]

theorem putWords_top {ns : List Nat} : (h.putWords v k ns).top = h.top := by
  induction ns generalizing h k with
  | nil => rfl
  | cons n ns ih => rw [putWords, ih, putWord, put_top]

/-! ## Overwriting headers -/

/-- The heap with other bytes in front of a payload. -/
def putHeader (h : Heap) (v : Value) (bs : List UInt8) : Heap :=
  { h with memory := h.memory.write (v.offset - 8) bs }

section PutHeader

@[simp] theorem putHeader_registry : (h.putHeader v bs).registry = h.registry := rfl

@[simp] theorem putHeader_symbols : (h.putHeader v bs).symbols = h.symbols := rfl

@[simp] theorem putHeader_config : (h.putHeader v bs).config = h.config := rfl

@[simp] theorem putHeader_top : (h.putHeader v bs).top = h.top := rfl

@[simp] theorem putHeader_objects : (h.putHeader v bs).objects = h.objects := rfl

@[simp] theorem putHeader_barrier : (h.putHeader v bs).barrier = h.barrier := rfl

@[simp] theorem putHeader_stats : (h.putHeader v bs).stats = h.stats := rfl

theorem putHeader_memory : (h.putHeader v bs).memory = h.memory.write (v.offset - 8) bs := rfl

end PutHeader

attribute [irreducible] putHeader

/-- The heap with another header for an object. -/
def setHeader (h : Heap) (v : Value) (x : Header) : Heap :=
  h.putHeader v (LittleEndian.toBytes 8 x.word)

/-- A header with other flags still fits in a word. -/
theorem word_withGc_lt (g : GcBits) : ((h.headerOf v).withGc g).word < 0x10000000000000000 := by
  have hlt := LittleEndian.ofBytes_lt (h.memory.window (v.offset - 8) 8)
  rw [Memory.length_window, LittleEndian.count_eight] at hlt
  have hg := g.toNat_lt
  simp only [Header.withGc, Header.typeBits, headerOf]
  omega

theorem headerOf_setHeader {x : Header} (hend : v.offset - 8 + 8 ≤ h.memory.length)
    (hx : x.word < 0x10000000000000000) : (h.setHeader v x).headerOf v = x := by
  have hlen : (LittleEndian.toBytes 8 x.word).length = 8 := LittleEndian.length_toBytes 8 _
  have hwindow := Memory.window_write_self h.memory (v.offset - 8) (LittleEndian.toBytes 8 x.word)
    (by rw [hlen]; exact hend)
  rw [hlen] at hwindow
  rw [headerOf, Heap.setHeader, putHeader_memory, hwindow, LittleEndian.ofBytes_toBytes_of_lt (by rw [LittleEndian.count_eight]; exact hx)]

/-- Headers lie outside of payloads. -/
theorem headerOf_put (ha : h.Arena) (hn : h.size? v = some n) (hend : k + bs.length ≤ n) (hw : h.Live w) :
    (h.put v k bs).headerOf w = h.headerOf w := by
  have hwindow : (h.memory.write (v.offset + k) bs).window (w.offset - 8) 8 =
      h.memory.window (w.offset - 8) 8 := by
    refine Memory.window_write_of_disjoint _ ?_
    have hge := ha.offset_ge hw
    obtain ⟨m, hm⟩ := hw
    by_cases hvw : v = w
    · subst hvw
      omega
    · have := ha.disjoint hn hm hvw
      omega
  rw [headerOf, put_memory, hwindow, headerOf]

/-- And each object has its own. -/
theorem headerOf_setHeader_of_ne {x : Header} (ha : h.Arena) (hv : h.Live v) (hw : h.Live w) (hne : v ≠ w) :
    (h.setHeader v x).headerOf w = h.headerOf w := by
  have hge := ha.offset_ge hv
  have hge' := ha.offset_ge hw
  obtain ⟨n, hn⟩ := hv
  obtain ⟨m, hm⟩ := hw
  have hdisj := ha.disjoint hn hm hne
  rw [headerOf, setHeader, putHeader_memory,
    Memory.window_write_of_disjoint _ (by rw [LittleEndian.length_toBytes]; omega), headerOf]

/-! ## Running -/

theorem checkRange_eq {off len : Nat} (hend : off + len ≤ h.top) : h.checkRange off len = .ok () :=
  if_pos hend

theorem runOn_writeBytes (hend : v.offset + k + bs.length ≤ h.top) :
    (writeBytes (v.offset + k) bs).runOn h = (.ok ⟨⟩, h.put v k bs) := by
  have hcheck : (Action.look fun h : Heap => h.checkRange (v.offset + k) bs.length).runOn h = (.ok (), h) := by
    rw [Action.runOn_look, checkRange_eq hend]
  rw [writeBytes, Action.runOn_bind_ok hcheck, Action.runOn_modify, put]

theorem runOn_writeWord (hend : v.offset + k + 8 ≤ h.top) :
    (writeWord (v.offset + k) n).runOn h = (.ok ⟨⟩, h.putWord v k n) :=
  runOn_writeBytes (by rw [LittleEndian.length_toBytes]; exact hend)

theorem runOn_writeRef {x : Option Value} (hend : v.offset + k + 8 ≤ h.top) :
    (writeRef (v.offset + k) x).runOn h = (.ok ⟨⟩, h.putWord v k (Value.toWord x)) :=
  runOn_writeWord hend

theorem runOn_clearBytes (hend : v.offset + k + n ≤ h.top) :
    (clearBytes (v.offset + k) n).runOn h = (.ok ⟨⟩, h.put v k (List.replicate n 0)) := by
  have hcheck : (Action.look fun h : Heap => h.checkRange (v.offset + k) n).runOn h = (.ok (), h) := by
    rw [Action.runOn_look, checkRange_eq hend]
  rw [clearBytes, Action.runOn_bind_ok hcheck, runOn_writeBytes (by rwa [List.length_replicate])]

theorem runOn_copyBytes {src : Nat} (hsrc : src + n ≤ h.top) (hend : v.offset + k + n ≤ h.top) :
    (copyBytes src n (v.offset + k)).runOn h = (.ok ⟨⟩, h.put v k (h.memory.window src n)) := by
  have hread : (Action.look fun h : Heap => h.bytes src n).runOn h = (.ok (h.memory.window src n), h) := by
    rw [Action.runOn_look, bytes_eq hsrc]
  rw [copyBytes, Action.runOn_bind_ok hread, runOn_writeBytes (by rwa [Memory.length_window])]

/-- A copy that reaches behind the last object is refused. -/
theorem runOn_copyBytes_error {src dst : Nat} (hsrc : h.top < src + n) :
    (copyBytes src n dst).runOn h = (.error (.indexOutOfRange .heap src h.top), h) := by
  refine Action.runOn_bind_error ?_
  rw [Action.runOn_look, bytes, checkRange, if_neg (by omega)]
  rfl

theorem runOn_writeHeader {x : Header} (hend : v.offset - 8 + 8 ≤ h.top) :
    (writeWord (v.offset - 8) x.word).runOn h = (.ok ⟨⟩, h.setHeader v x) := by
  have hlen : (LittleEndian.toBytes 8 x.word).length = 8 := LittleEndian.length_toBytes 8 _
  have hcheck : (Action.look fun h : Heap =>
      h.checkRange (v.offset - 8) (LittleEndian.toBytes 8 x.word).length).runOn h = (.ok (), h) := by
    rw [Action.runOn_look, checkRange_eq (by rw [hlen]; exact hend)]
  rw [writeWord, writeBytes, Action.runOn_bind_ok hcheck, Action.runOn_modify, setHeader, putHeader]

theorem runOn_setGcBits {g : GcBits} (hv : h.Live v) (hend : v.offset - 8 + 8 ≤ h.top) :
    (setGcBits v g).runOn h = (.ok ⟨⟩, h.setHeader v ((h.headerOf v).withGc g)) := by
  have hread : (Action.look fun h : Heap => h.header v).runOn h = (.ok (h.headerOf v), h) := by
    rw [Action.runOn_look, header_eq_ok.2 ⟨hv, hend, rfl⟩]
  rw [setGcBits, Action.runOn_bind_ok hread, runOn_writeHeader hend]

/-! ## Rewriting in place -/

/-- Payload bytes changed only where `S` allows it, and headers only in the collector's flags. -/
structure Rewrites (S : Value → Nat → Prop) (h h' : Heap) : Prop where
  registry : h'.registry = h.registry
  config : h'.config = h.config
  top : h'.top = h.top
  objects : h'.objects = h.objects
  capacity : h'.stats.capacityBytes = h.stats.capacityBytes
  count : h'.stats.objects = h.stats.objects
  allocated : h'.stats.allocatedBytes = h.stats.allocatedBytes
  length : h'.memory.length = h.memory.length
  vacant : ∀ i, h.top ≤ i → h'.memory.get i = h.memory.get i
  type? : ∀ v, h.Live v → (h'.headerOf v).type? = (h.headerOf v).type?
  bytes : ∀ {v n k}, h.size? v = some n → k < n → ¬S v k → h'.byte v k = h.byte v k

namespace Rewrites

variable {S : Value → Nat → Prop}

theorem refl (S : Value → Nat → Prop) (h : Heap) : Rewrites S h h :=
  ⟨rfl, rfl, rfl, rfl, rfl, rfl, rfl, rfl, fun _ _ => rfl, fun _ _ => rfl, fun _ _ _ => rfl⟩

theorem size?_eq (hr : Rewrites S h h') (v : Value) : h'.size? v = h.size? v := size?_congr hr.objects v

theorem live_iff (hr : Rewrites S h h') : h'.Live v ↔ h.Live v := live_congr hr.objects

theorem types_eq (hr : Rewrites S h h') : h'.types = h.types := by
  rw [types, types, hr.registry]

theorem trans (hr : Rewrites S h h') (hr' : Rewrites S h' h'') : Rewrites S h h'' where
  registry := hr'.registry.trans hr.registry
  config := hr'.config.trans hr.config
  top := hr'.top.trans hr.top
  objects := hr'.objects.trans hr.objects
  capacity := hr'.capacity.trans hr.capacity
  count := hr'.count.trans hr.count
  allocated := hr'.allocated.trans hr.allocated
  length := hr'.length.trans hr.length
  vacant i hi := (hr'.vacant i (by rw [hr.top]; exact hi)).trans (hr.vacant i hi)
  type? v hv := (hr'.type? v (hr.live_iff.2 hv)).trans (hr.type? v hv)
  bytes hn hk hS := (hr'.bytes ((hr.size?_eq _).trans hn) hk hS).trans (hr.bytes hn hk hS)

theorem symm (hr : Rewrites S h h') : Rewrites S h' h where
  registry := hr.registry.symm
  config := hr.config.symm
  top := hr.top.symm
  objects := hr.objects.symm
  capacity := hr.capacity.symm
  count := hr.count.symm
  allocated := hr.allocated.symm
  length := hr.length.symm
  vacant i hi := (hr.vacant i (by rw [← hr.top]; exact hi)).symm
  type? v hv := (hr.type? v (hr.live_iff.1 hv)).symm
  bytes hn hk hS := (hr.bytes ((hr.size?_eq _).symm.trans hn) hk hS).symm

theorem mono {S' : Value → Nat → Prop} (hr : Rewrites S h h') (hS : ∀ v k, S v k → S' v k) :
    Rewrites S' h h' :=
  { hr with bytes := fun hn hk hne => hr.bytes hn hk fun hs => hne (hS _ _ hs) }

theorem typeOf_iff (hr : Rewrites S h h') : h'.typeOf v = .ok t ↔ h.typeOf v = .ok t := by
  rw [typeOf_eq_ok, typeOf_eq_ok, hr.live_iff, hr.top, hr.types_eq]
  constructor
  · rintro ⟨hv, hend, htype, hc⟩
    exact ⟨hv, hend, (hr.type? v hv).symm.trans htype, hc⟩
  · rintro ⟨hv, hend, htype, hc⟩
    exact ⟨hv, hend, (hr.type? v hv).trans htype, hc⟩

theorem arena (hr : Rewrites S h h') (ha : h.Arena) : h'.Arena where
  aligned := by rw [hr.objects]; exact ha.aligned
  ordered := by rw [hr.objects]; exact ha.ordered
  below := by rw [hr.objects, hr.top]; exact ha.below
  reach := by rw [hr.top, hr.length]; exact ha.reach
  capacity := by rw [hr.capacity, hr.length]; exact ha.capacity
  limit := by rw [hr.length, limit, hr.config]; exact ha.limit
  vacant i hi := by
    rw [hr.top] at hi
    rw [hr.vacant i hi, ha.vacant i hi]
  count := by rw [hr.count, hr.objects]; exact ha.count
  allocated := by rw [hr.allocated, hr.objects]; exact ha.allocated

theorem word_eq (hr : Rewrites S h h') (hn : h.size? v = some n) (hend : k + 8 ≤ n)
    (hS : ∀ j, k ≤ j → j < k + 8 → ¬S v j) : h'.word v k = h.word v k :=
  word_congr fun j hj hj' => hr.bytes hn (by omega) (hS j hj hj')

/-- Symbols and the queue of the barrier are no part of objects. -/
theorem withSymbols (S : Value → Nat → Prop) (h : Heap) (table : SymbolTable) :
    Rewrites S h { h with symbols := table } :=
  ⟨rfl, rfl, rfl, rfl, rfl, rfl, rfl, rfl, fun _ _ => rfl, fun _ _ => rfl, fun _ _ _ => rfl⟩

theorem withBarrier (S : Value → Nat → Prop) (h : Heap) (b : Barrier) :
    Rewrites S h { h with barrier := b } :=
  ⟨rfl, rfl, rfl, rfl, rfl, rfl, rfl, rfl, fun _ _ => rfl, fun _ _ => rfl, fun _ _ _ => rfl⟩

/-- Overwriting bytes inside one payload. -/
theorem put (ha : h.Arena) (hn : h.size? v = some n) (hend : k + bs.length ≤ n)
    (hS : ∀ j, k ≤ j → j < k + bs.length → S v j) : Rewrites S h (h.put v k bs) where
  registry := put_registry
  config := put_config
  top := put_top
  objects := put_objects
  capacity := by rw [put_stats]
  count := by rw [put_stats]
  allocated := by rw [put_stats]
  length := length_put
  vacant i hi := by
    have := ha.end_le hn
    rw [put_memory, Memory.get_write_of_not_mem _ (by omega)]
  type? w hw := by rw [headerOf_put ha hn hend hw]
  bytes {w m j} hm hj hne := by
    refine byte_put_of_outside ?_
    by_cases hvw : v = w
    · subst hvw
      have := hS j
      by_cases hlo : k ≤ j
      · by_cases hhi : j < k + bs.length
        · exact absurd (this hlo hhi) hne
        · omega
      · omega
    · have := ha.disjoint hn hm hvw
      omega

theorem putWord (ha : h.Arena) (hn : h.size? v = some n) (hend : k + 8 ≤ n)
    (hS : ∀ j, k ≤ j → j < k + 8 → S v j) : Rewrites S h (h.putWord v k m) :=
  put ha hn (by rw [LittleEndian.length_toBytes]; exact hend)
    (by rw [LittleEndian.length_toBytes]; exact hS)

/-- Changing the collector's flags of an object. -/
theorem setHeader (ha : h.Arena) (hv : h.Live v) (g : GcBits) :
    Rewrites S h (h.setHeader v ((h.headerOf v).withGc g)) where
  registry := putHeader_registry
  config := putHeader_config
  top := putHeader_top
  objects := putHeader_objects
  capacity := by rw [Heap.setHeader, putHeader_stats]
  count := by rw [Heap.setHeader, putHeader_stats]
  allocated := by rw [Heap.setHeader, putHeader_stats]
  length := by rw [Heap.setHeader, putHeader_memory, Memory.length_write]
  vacant i hi := by
    have := ha.header_end_le hv
    rw [Heap.setHeader, putHeader_memory, Memory.get_write_of_not_mem _ (by rw [LittleEndian.length_toBytes]; omega)]
  type? w hw := by
    by_cases hvw : v = w
    · subst hvw
      rw [headerOf_setHeader (Nat.le_trans (ha.header_end_le hv) ha.reach) (word_withGc_lt g),
        Header.type?_withGc]
    · rw [headerOf_setHeader_of_ne ha hv hw hvw]
  bytes {w m j} hm hj _ := by
    have houtside : w.offset + j < v.offset - 8 ∨ v.offset - 8 + 8 ≤ w.offset + j := by
      have hge := ha.offset_ge hv
      obtain ⟨n, hn⟩ := hv
      by_cases hvw : v = w
      · subst hvw
        omega
      · have := ha.disjoint hn hm hvw
        omega
    rw [byte, Heap.setHeader, putHeader_memory,
      Memory.get_write_of_not_mem _ (by rw [LittleEndian.length_toBytes]; exact houtside), byte]

end Rewrites

/-! ## Writing -/

/-- Payload bytes changed only where `S` allows it; headers did not, nor did what the barrier keeps. -/
structure Writes (S : Value → Nat → Prop) (h h' : Heap) : Prop extends Rewrites S h h' where
  header : ∀ v, h.Live v → h'.headerOf v = h.headerOf v
  queue : h'.barrier = h.barrier
  hits : h'.stats.barrierHits = h.stats.barrierHits

namespace Writes

variable {S : Value → Nat → Prop}

theorem refl (S : Value → Nat → Prop) (h : Heap) : Writes S h h := ⟨.refl S h, fun _ _ => rfl, rfl, rfl⟩

theorem trans (hw : Writes S h h') (hw' : Writes S h' h'') : Writes S h h'' where
  toRewrites := hw.toRewrites.trans hw'.toRewrites
  header v hv := (hw'.header v (hw.live_iff.2 hv)).trans (hw.header v hv)
  queue := hw'.queue.trans hw.queue
  hits := hw'.hits.trans hw.hits

theorem mono {S' : Value → Nat → Prop} (hw : Writes S h h') (hS : ∀ v k, S v k → S' v k) :
    Writes S' h h' :=
  ⟨hw.toRewrites.mono hS, hw.header, hw.queue, hw.hits⟩

theorem withSymbols (S : Value → Nat → Prop) (h : Heap) (table : SymbolTable) :
    Writes S h { h with symbols := table } :=
  ⟨.withSymbols S h table, fun _ _ => rfl, rfl, rfl⟩

theorem put (ha : h.Arena) (hn : h.size? v = some n) (hend : k + bs.length ≤ n)
    (hS : ∀ j, k ≤ j → j < k + bs.length → S v j) : Writes S h (h.put v k bs) :=
  ⟨.put ha hn hend hS, fun _ hw => headerOf_put ha hn hend hw, put_barrier, by rw [put_stats]⟩

theorem putWord (ha : h.Arena) (hn : h.size? v = some n) (hend : k + 8 ≤ n)
    (hS : ∀ j, k ≤ j → j < k + 8 → S v j) : Writes S h (h.putWord v k m) :=
  put ha hn (by rw [LittleEndian.length_toBytes]; exact hend)
    (by rw [LittleEndian.length_toBytes]; exact hS)

theorem putWords {ns : List Nat} (ha : h.Arena) (hn : h.size? v = some n)
    (hend : k + 8 * ns.length ≤ n) (hS : ∀ j, k ≤ j → j < k + 8 * ns.length → S v j) :
    Writes S h (h.putWords v k ns) := by
  induction ns generalizing h k with
  | nil => exact refl S h
  | cons m ns ih =>
    rw [List.length_cons] at hend hS
    have hfirst : Writes S h (h.putWord v k m) :=
      putWord ha hn (by omega) fun j hj hj' => hS j hj (by omega)
    have hn' : (h.putWord v k m).size? v = some n := (hfirst.size?_eq v).trans hn
    refine hfirst.trans (ih (hfirst.arena ha) hn' (by omega) fun j hj hj' => ?_)
    exact hS j (by omega) (by omega)

end Writes

/-- Payload bytes changed only where `S` allows it, and of the collector's flags at most `REMEMBERED` was
set. -/
structure Reports (S : Value → Nat → Prop) (h h' : Heap) : Prop extends Rewrites S h h' where
  old : ∀ v, h.Live v → (h'.headerOf v).gc.old = (h.headerOf v).gc.old
  remembered : ∀ v, h.Live v → (h.headerOf v).gc.remembered = true → (h'.headerOf v).gc.remembered = true

namespace Reports

variable {S : Value → Nat → Prop}

theorem trans (hr : Reports S h h') (hr' : Reports S h' h'') : Reports S h h'' where
  toRewrites := hr.toRewrites.trans hr'.toRewrites
  old v hv := (hr'.old v (hr.live_iff.2 hv)).trans (hr.old v hv)
  remembered v hv hbit := hr'.remembered v (hr.live_iff.2 hv) (hr.remembered v hv hbit)

theorem withBarrier (S : Value → Nat → Prop) (h : Heap) (b : Barrier) : Reports S h { h with barrier := b } :=
  ⟨.withBarrier S h b, fun _ _ => rfl, fun _ _ => id⟩

end Reports

/-- Who leaves the headers alone sets no flag. -/
theorem Writes.reports {S : Value → Nat → Prop} (hw : Writes S h h') : Reports S h h' :=
  ⟨hw.toRewrites, fun v hv => by rw [hw.header v hv], fun v hv hbit => by rwa [hw.header v hv]⟩

/-! ## Extension -/

/-- Objects, types and layouts that there were are there still. -/
structure Extends (h h' : Heap) : Prop where
  registry : h.registry.Extends h'.registry
  size? : ∀ {v n}, h.size? v = some n → h'.size? v = some n
  typeOf : ∀ {v t}, h.typeOf v = .ok t → h'.typeOf v = .ok t

/-- And payload bytes changed only where `S` allows it. -/
structure Keeps (S : Value → Nat → Prop) (h h' : Heap) : Prop extends Extends h h' where
  bytes : ∀ {v n k}, h.size? v = some n → k < n → ¬S v k → h'.byte v k = h.byte v k

theorem Extends.refl (h : Heap) : h.Extends h := ⟨.refl _, fun h => h, fun h => h⟩

theorem Extends.trans (he : h.Extends h') (he' : h'.Extends h'') : h.Extends h'' :=
  ⟨he.registry.trans he'.registry, fun hn => he'.size? (he.size? hn),
    fun ht => he'.typeOf (he.typeOf ht)⟩

theorem Extends.live (he : h.Extends h') (hv : h.Live v) : h'.Live v := by
  obtain ⟨n, hn⟩ := hv
  exact ⟨n, he.size? hn⟩

theorem Extends.descriptor {d : Descriptor} (he : h.Extends h') (hd : h.types.descriptor t = .ok d) :
    h'.types.descriptor t = .ok d :=
  he.registry.types.descriptor hd

/-- An object that could stand where a type is asked for still can. -/
theorem Extends.isa {b : Bool} (he : h.Extends h') (hb : h.isa v t = .ok b) : h'.isa v t = .ok b := by
  obtain ⟨s, hs, hb⟩ := isa_eq_ok.1 hb
  exact isa_eq_ok.2 ⟨s, he.typeOf hs, he.registry.types.isa hb⟩

section Keeps

variable {S : Value → Nat → Prop}

theorem Keeps.refl (S : Value → Nat → Prop) (h : Heap) : Keeps S h h := ⟨.refl h, fun _ _ _ => rfl⟩

theorem Keeps.trans (hk : Keeps S h h') (hk' : Keeps S h' h'') : Keeps S h h'' :=
  ⟨hk.toExtends.trans hk'.toExtends, fun hn hj hS =>
    (hk'.bytes (hk.size? hn) hj hS).trans (hk.bytes hn hj hS)⟩

theorem Keeps.word_eq (hk : Keeps S h h') (hn : h.size? v = some n) (hend : k + 8 ≤ n)
    (hS : ∀ j, k ≤ j → j < k + 8 → ¬S v j) : h'.word v k = h.word v k :=
  word_congr fun j hj hj' => hk.bytes hn (by omega) (hS j hj hj')

theorem Keeps.slot_eq (hk : Keeps S h h') (hn : h.size? v = some n) (hend : k + 8 ≤ n)
    (hS : ∀ j, k ≤ j → j < k + 8 → ¬S v j) : h'.slot v k = h.slot v k := by
  rw [slot, slot, hk.word_eq hn hend hS]

theorem Rewrites.extends (hr : Rewrites S h h') : h.Extends h' where
  registry := by rw [hr.registry]; exact .refl _
  size? hn := (hr.size?_eq _).trans hn
  typeOf ht := hr.typeOf_iff.2 ht

theorem Rewrites.keeps (hr : Rewrites S h h') : Keeps S h h' := ⟨hr.extends, hr.bytes⟩

end Keeps

end TypedHeap.Heap
