import TypedHeap.Proofs.Array.Element

/-!
# What an array holds

Whoever asks an array for its elements sees a list: for each index below the length a datum, or nothing
where no reference was stored. Where the elements lie, how much room there is behind them and what used
to be there is nothing that can be seen.

* `ArrayObject.Lists`: the list that the length and the elements of an array make up.
* `Heap.Shows`, `Heap.Holds`: what the bytes of a buffer stand for, slot by slot and as a list.
* `Heap.Default`: what a slot of zeros stands for.

Main results: `lists_of_holds`, `Holds.of_same`, `Holds.set`, `exists_default`.
-/

namespace TypedHeap

open Heap ArrayObject

variable {h h' h'' : Heap} {a v x : Value} {f g : ArrayInfo} {t : TypeRef} {i j k n lo hi : Nat}
  {d : Option Datum} {xs ys : List (Option Datum)} {S : Value → Nat → Prop}

/-! ## The list of an array -/

namespace ArrayObject

/-- What asking for the element at an index answers, given the element. -/
def defined (i : Nat) : Option Datum → Except Error Datum
  | some d => .ok d
  | none => .error (.undefined ("array element " ++ toString i))

/-- What asking a list of elements for the one at an index answers. -/
def answer (xs : List (Option Datum)) (i : Nat) : Except Error Datum :=
  match xs[i]? with
  | some d => defined i d
  | none => .error (.indexOutOfRange .element i xs.length)

theorem mem_of_answer {d : Datum} (hd : answer xs i = .ok d) : some d ∈ xs := by
  unfold answer at hd
  split at hd
  · rename_i e he
    cases e with
    | none => cases hd
    | some e =>
      cases hd
      exact List.mem_of_getElem? he
  · cases hd

/-- An array is a list, as far as its length and its elements tell. Asking changes nothing. -/
structure Lists (h : Heap) (a : Value) (xs : List (Option Datum)) : Prop where
  length : ArrayObject.length h a = .ok xs.length
  get : ∀ i, (ArrayObject.get a i).runOn h = (answer xs i, h)

theorem getElem?_eq_of_answer (hlen : ys.length = xs.length) (h : answer ys i = answer xs i) :
    ys[i]? = xs[i]? := by
  by_cases hi : i < xs.length
  · rw [answer, answer, List.getElem?_eq_getElem hi, List.getElem?_eq_getElem (by omega)] at h
    rw [List.getElem?_eq_getElem hi, List.getElem?_eq_getElem (by omega)]
    generalize xs[i] = x at h ⊢
    generalize ys[i] = y at h ⊢
    cases x <;> cases y <;> cases h <;> rfl
  · rw [List.getElem?_eq_none (by omega), List.getElem?_eq_none (by omega)]

/-- An array is one list only. -/
theorem Lists.unique (hx : Lists h a xs) (hy : Lists h a ys) : ys = xs := by
  have hlen : ys.length = xs.length :=
    Except.ok.inj (hy.length.symm.trans hx.length)
  refine List.ext_getElem? fun i => getElem?_eq_of_answer hlen ?_
  exact congrArg Prod.fst ((hy.get i).symm.trans (hx.get i))

end ArrayObject

namespace Heap

/-! ## Slots -/

/-- What the slot at an index stands for: a reference or nothing, or the bits of a value. -/
inductive Shows (h : Heap) (f : ArrayInfo) (i : Nat) : Option Datum → Prop
  | reference (storage : f.flags.storage = .references) :
      Shows h f i ((h.slot f.buffer (refSize + f.slotOffset i)).map .ref)
  | bits {t : TypeRef} {n : Nat} (bits : h.ElementBits f i t n) :
      Shows h f i (some (.bits t (h.memory.window (f.buffer.offset + (refSize + f.slotOffset i)) n)))

/-- The bytes that belong to the slots from `lo` up to `hi`. -/
def Cells (f : ArrayInfo) (lo hi : Nat) (w : Value) (k : Nat) : Prop :=
  w = f.buffer ∧ ∃ j, k = refSize + j ∧ f.Between lo hi j

/-- The bits of an element fit in a slot. -/
theorem ElementBits.le (he : h.ElementBits f i t n) (hb : h.BodySound f) : n ≤ f.flags.slotSize := by
  obtain ⟨-, -, -, -, hle⟩ := he.layout hb
  exact hle

theorem ElementBits.of_same (he : h.ElementBits f i t n) (hsame : SameSlot h f h' g i) :
    h'.ElementBits g i t n := by
  cases he with
  | flat storage same size =>
    exact .flat (hsame.storage.trans storage) (hsame.elem.trans same) (hsame.slotSize.trans size)
  | @member d storage union selector size =>
    have hd : h'.types.descriptor g.elem = .ok d := by
      rw [hsame.elem]
      exact hsame.registry.types.descriptor union
    refine .member (hsame.storage.trans storage) hd ?_ (size.extends hsame.registry)
    rw [hsame.selector storage]
    exact selector

theorem Shows.of_window {bs : List UInt8} (he : h.ElementBits f i t n)
    (hwindow : h.memory.window (f.buffer.offset + (refSize + f.slotOffset i)) n = bs) :
    h.Shows f i (some (.bits t bs)) := by
  subst hwindow
  exact .bits he

/-- Slots that hold the same bytes stand for the same. -/
theorem Shows.of_same (hx : h.Shows f i d) (hb : h.BodySound f) (hsame : SameSlot h f h' g i) :
    h'.Shows g i d := by
  cases hx with
  | reference storage =>
    have hword : h'.word g.buffer (refSize + g.slotOffset i) = h.word f.buffer (refSize + f.slotOffset i) :=
      word_eq_of_byte_eq fun j hj => hsame.bytes j (by rw [hb.slotSize_references storage]; exact hj)
    rw [slot, ← hword]
    exact .reference (hsame.storage.trans storage)
  | @bits t n bits =>
    have hle := bits.le hb
    exact .of_window (bits.of_same hsame)
      (window_eq_of_byte_eq fun j hj => hsame.bytes j (Nat.lt_of_lt_of_le hj hle))

/-- Slots that nobody writes to hold what they held. -/
theorem Keeps.sameSlot (hk : Keeps S h h') (hs : h.Sound) (hb : h.BodySound f) (hi : i < f.capacity)
    (hS : ∀ j, f.Between i (i + 1) j → ¬S f.buffer (refSize + j)) : SameSlot h f h' f i where
  registry := hk.registry
  elem := rfl
  storage := rfl
  slotSize := rfl
  bytes j hj := by
    have hend := hb.slot_end hi
    have hnext := f.slotOffset_succ i
    rw [Nat.add_assoc]
    exact hk.bytes (hs.size_buffer hb.buffer) (by omega) (hS _ (.inl ⟨by omega, by omega⟩))
  selector hsel := by
    have hend : f.selectorOffset i + 1 ≤ h.word f.buffer 0 := hb.selector_end hsel hi
    refine hk.bytes (hs.size_buffer hb.buffer) (by omega) (hS _ (.inr ⟨hsel, Nat.le_refl _, ?_⟩))
    exact Nat.lt_succ_self _

/-! ## Slots of zeros -/

/-- What an element is to which nothing has been stored: nothing where references are stored, else zero
bits, of the element type or of the first member of a union. -/
inductive Default (h : Heap) (elem : TypeRef) : Option Datum → Prop
  | references {n : Nat} (storage : (elementStorage elem).runOn h = (.ok (.references, n), h)) :
      Default h elem none
  | flat {n : Nat} (storage : (elementStorage elem).runOn h = (.ok (.flat, n), h)) :
      Default h elem (some (.bits elem (List.replicate n 0)))
  | selected {d : Descriptor} {t : TypeRef} {m n : Nat}
      (storage : (elementStorage elem).runOn h = (.ok (.selected, m), h))
      (union : h.types.descriptor elem = .ok d) (first : d.memberTypes.head? = some t)
      (size : (sizeOf t).runOn h = (.ok n, h)) : Default h elem (some (.bits t (List.replicate n 0)))

theorem window_eq_zeros (hzero : ∀ j, j < n → h.byte v (k + j) = 0) :
    h.memory.window (v.offset + k) n = List.replicate n 0 := by
  refine List.ext_getElem (by simp) fun j hj _ => ?_
  rw [Memory.length_window] at hj
  rw [Memory.getElem_window, List.getElem_replicate, Nat.add_assoc]
  exact hzero j hj

/-- A slot of zeros holds no reference. -/
theorem BodySound.slot_of_zeros (hb : h.BodySound f) (hstorage : f.flags.storage = .references)
    (hzero : ∀ j, f.Between i (i + 1) j → h.byte f.buffer (refSize + j) = 0) :
    h.slot f.buffer (refSize + f.slotOffset i) = none := by
  have hslot := hb.slotSize_references hstorage
  have hnext := f.slotOffset_succ i
  refine slot_eq_none_of_zero (word_eq_zero fun j hj hj' => ?_)
  obtain ⟨m, rfl⟩ := Nat.exists_eq_add_of_le hj
  rw [Nat.add_assoc]
  exact hzero _ (.inl ⟨by omega, by omega⟩)

/-- Slots of zeros all stand for the same. -/
theorem exists_default (hs : h.registry.Sound) (hb : h.BodySound f) :
    ∃ d, h.Default f.elem d ∧
      ∀ i, (∀ j, f.Between i (i + 1) j → h.byte f.buffer (refSize + j) = 0) → h.Shows f i d := by
  have hslot (i : Nat) (hzero : ∀ j, f.Between i (i + 1) j → h.byte f.buffer (refSize + j) = 0) (j : Nat)
      (hj : j < f.flags.slotSize) : h.byte f.buffer (refSize + f.slotOffset i + j) = 0 := by
    have hnext := f.slotOffset_succ i
    rw [Nat.add_assoc]
    exact hzero _ (.inl ⟨by omega, by omega⟩)
  have hstored := hb.stored
  have hrun := runOn_elementStorage hs hstored
  cases hstorage : f.flags.storage with
  | references =>
    rw [hstorage] at hrun
    refine ⟨none, .references hrun, fun i hzero => ?_⟩
    have hshows : h.Shows f i _ := .reference hstorage
    rwa [hb.slot_of_zeros hstorage hzero] at hshows
  | flat =>
    rw [hstorage] at hrun
    refine ⟨_, .flat hrun, fun i hzero => ?_⟩
    exact .of_window (.flat hstorage rfl rfl) (window_eq_zeros (hslot i hzero))
  | selected =>
    rw [hstorage] at hrun
    obtain ⟨d, t, hd, ht⟩ := hb.selector_zero hstorage
    obtain ⟨l, hl, -, hle⟩ := hb.member_bits hstorage hd (List.mem_of_getElem? ht)
    have hsize : h.registry.Sized t l.size := ⟨l, hl, rfl⟩
    have hfirst : d.memberTypes.head? = some t := by
      rw [List.head?_eq_getElem?]
      exact ht
    refine ⟨_, .selected hrun hd hfirst (runOn_sizeOf hs hsize), fun i hzero => ?_⟩
    have hselector : h.byte f.buffer (refSize + f.selectorOffset i) = 0 :=
      hzero _ (.inr ⟨hstorage, Nat.le_refl _, Nat.lt_succ_self _⟩)
    have hmember : h.ElementBits f i t l.size := .member hstorage hd (by rw [hselector]; exact ht) hsize
    exact .of_window hmember (window_eq_zeros fun j hj => hslot i hzero j (Nat.lt_of_lt_of_le hj hle))

/-! ## Lists of elements -/

/-- The slots in use stand for the elements of a list. -/
structure Holds (h : Heap) (f : ArrayInfo) (xs : List (Option Datum)) : Prop where
  length : xs.length = f.length
  shows : ∀ i d, xs[i]? = some d → h.Shows f i d

/-- A slot in use stands for something. -/
theorem exists_shows (hb : h.BodySound f) (hi : i < f.length) :
    ∃ d, h.Shows f i d := by
  cases hstorage : f.flags.storage with
  | references => exact ⟨_, .reference hstorage⟩
  | flat => exact ⟨_, .bits (.flat hstorage rfl rfl)⟩
  | selected =>
    obtain ⟨d, t, hd, ht⟩ := hb.selectors hstorage i hi
    obtain ⟨l, hl, -, -⟩ := hb.member_bits hstorage hd (List.mem_of_getElem? ht)
    exact ⟨_, .bits (.member hstorage hd ht ⟨l, hl, rfl⟩)⟩

theorem exists_holds (hb : h.BodySound f) : ∃ xs, h.Holds f xs := by
  choose x hx using fun i : Fin f.length => exists_shows hb i.isLt
  refine ⟨List.ofFn x, List.length_ofFn, fun i d hd => ?_⟩
  obtain ⟨hi, rfl⟩ := List.getElem?_eq_some_iff.1 hd
  rw [List.length_ofFn] at hi
  rw [List.getElem_ofFn]
  exact hx ⟨i, hi⟩

namespace Holds

theorem lt (hx : h.Holds f xs) (hd : xs[i]? = some d) : i < f.length := by
  rw [← hx.length]
  exact (List.getElem?_eq_some_iff.1 hd).1

/-- Slots that hold the same bytes stand for the same list. -/
theorem of_same (hx : h.Holds f xs) (hb : h.BodySound f) (hlength : g.length = f.length)
    (hsame : ∀ i, i < f.length → SameSlot h f h' g i) : h'.Holds g xs where
  length := hx.length.trans hlength.symm
  shows i d hd := (hx.shows i d hd).of_same hb (hsame i (hx.lt hd))

/-- A list stays what it is if nobody writes to the buffer. -/
theorem keeps (hx : h.Holds f xs) (hs : h.Sound) (hb : h.BodySound f) (hk : Keeps S h h')
    (hS : ∀ j, ¬S f.buffer j) : h'.Holds f xs :=
  hx.of_same hb rfl fun _ hi =>
    hk.sameSlot hs hb (Nat.lt_of_lt_of_le hi hb.length_le) fun _ _ => hS _

/-- One slot is written to, and the element there is another one. -/
theorem set (hx : h.Holds f xs) (hs : h.Sound) (hb : h.BodySound f) (hk : Keeps (Cells f i (i + 1)) h h')
    (hi : i < f.length) (hd : h'.Shows f i d) : h'.Holds f (xs.set i d) where
  length := (List.length_set).trans hx.length
  shows k e he := by
    have hle := hb.length_le
    rcases Nat.decEq i k with hne | rfl
    · rw [List.getElem?_set_ne hne] at he
      have hk' := hx.lt he
      refine (hx.shows k e he).of_same hb (hk.sameSlot hs hb (by omega) fun j hj hin => ?_)
      obtain ⟨-, j', heq, hj'⟩ := hin
      obtain rfl : j = j' := Nat.add_left_cancel heq
      have := hj.bounds hj' (by omega) (by omega)
      omega
    · rw [List.getElem?_set_self (by rw [hx.length]; exact hi)] at he
      cases he
      exact hd

end Holds

end Heap

/-! ## Asking -/

/-- The dimensions that an array lists are the words of its payload. -/
theorem Heap.Sound.dims_eq (hs : h.Sound) (ha : h.IsArray a f) :
    dims h a = .ok ((List.range f.flags.ndims).map fun k => h.word a (dimWord k)) := by
  have hinfo := hs.info_iff.2 ha
  have hend := hs.end_le_top (hs.size_array (hs.arrays ha).type)
  simp only [ownerOffset, refSize] at hend
  have hndims : ndims h a = .ok f.flags.ndims := by
    rw [ndims, hinfo]
    rfl
  refine bind_eq_ok.2 ⟨_, hndims, mapM_eq_ok.2 ?_⟩
  rw [List.forall₂_map_right_iff, List.forall₂_same]
  intro k hk
  rw [List.mem_range] at hk
  exact readWord_eq (by simp only [dimWord, refSize]; omega)

namespace ArrayObject

theorem selected_eq {d : Descriptor} (hend : v.offset + k + 1 ≤ h.top)
    (hd : h.types.descriptor f.elem = .ok d) (ht : d.memberTypes[(h.byte v k).toNat]? = some t) :
    selected h f (v.offset + k) = .ok t := by
  unfold selected
  refine bind_eq_ok.2 ⟨_, bytes_eq hend, ?_⟩
  refine bind_eq_ok.2 ⟨d.memberTypes, bind_eq_ok.2 ⟨d, hd, rfl⟩, ?_⟩
  have hbyte : LittleEndian.ofBytes (h.memory.window (v.offset + k) 1) = (h.byte v k).toNat := rfl
  rw [hbyte, ht]
  rfl

/-- An index in use is answered with what the slot there stands for. -/
theorem runOn_get (hs : h.Sound) (ha : h.IsArray a f) (hi : i < f.length) (hd : h.Shows f i d) :
    (get a i).runOn h = (defined i d, h) := by
  have hend := slot_end_le hs ha hi
  cases hd with
  | reference storage =>
    rw [(hs.arrays ha).body.slotSize_references storage] at hend
    have hread : (Action.look (·.readRef (f.buffer.offset + refSize + f.slotOffset i))).runOn h =
        (.ok (h.slot f.buffer (refSize + f.slotOffset i)), h) := by
      rw [Action.runOn_look, Nat.add_assoc, readRef_eq hend]
    generalize h.slot f.buffer (refSize + f.slotOffset i) = r at hread ⊢
    unfold get
    rw [Action.runOn_bind_ok (hs.runOn_info ha), Action.runOn_bind_ok (f.runOn_checkIndex hi h),
      Action.runOn_bind_ok (hs.runOn_start ha), storage]
    refine (Action.runOn_bind_ok hread).trans ?_
    cases r with
    | none => exact Action.runOn_throw _ h
    | some x => exact Action.runOn_pure _ h
  | @bits t n bits =>
    have hle := bits.le (hs.arrays ha).body
    have hread : (Action.look (·.bytes (f.buffer.offset + refSize + f.slotOffset i) n)).runOn h =
        (.ok (h.memory.window (f.buffer.offset + (refSize + f.slotOffset i)) n), h) := by
      rw [Action.runOn_look, Nat.add_assoc, bytes_eq (by omega)]
    unfold get
    rw [Action.runOn_bind_ok (hs.runOn_info ha), Action.runOn_bind_ok (f.runOn_checkIndex hi h),
      Action.runOn_bind_ok (hs.runOn_start ha)]
    cases bits with
    | flat storage same size =>
      subst size same
      rw [storage]
      exact Action.runOn_bind_ok hread
    | member storage union selector size =>
      have hselected : (Action.look (selected · f (f.buffer.offset + refSize + f.selectorOffset i))).runOn h =
          (.ok t, h) := by
        rw [Action.runOn_look, Nat.add_assoc, selected_eq (selector_end_le hs ha hi storage) union selector]
      rw [storage]
      exact (Action.runOn_bind_ok hselected).trans
        ((Action.runOn_bind_ok (runOn_sizeOf hs.registry size)).trans (Action.runOn_bind_ok hread))

/-- Any other index is refused. -/
theorem runOn_get_error (hs : h.Sound) (ha : h.IsArray a f) (hi : f.length ≤ i) :
    (get a i).runOn h = (.error (.indexOutOfRange .element i f.length), h) := by
  unfold get
  rw [Action.runOn_bind_ok (hs.runOn_info ha), Action.runOn_bind_error (f.runOn_checkIndex_error hi h)]

theorem lists_of_holds (hs : h.Sound) (ha : h.IsArray a f) (hx : h.Holds f xs) : Lists h a xs where
  length := bind_eq_ok.2 ⟨f, hs.info_iff.2 ha, pure_eq_ok.2 hx.length.symm⟩
  get i := by
    rw [answer]
    cases hd : xs[i]? with
    | none =>
      rw [runOn_get_error hs ha (by rw [← hx.length]; exact List.getElem?_eq_none_iff.1 hd), hx.length]
    | some d =>
      rw [runOn_get hs ha (hx.lt hd) (hx.shows i d hd)]

/-- An array is a list. -/
theorem exists_lists (hs : h.Sound) (ha : h.IsArray a f) : ∃ xs, Lists h a xs := by
  obtain ⟨xs, hx⟩ := exists_holds (hs.arrays ha).body
  exact ⟨xs, lists_of_holds hs ha hx⟩

theorem holds_of_lists (hs : h.Sound) (ha : h.IsArray a f) (hl : Lists h a xs) : h.Holds f xs := by
  obtain ⟨ys, hy⟩ := exists_holds (hs.arrays ha).body
  rw [(lists_of_holds hs ha hy).unique hl]
  exact hy

/-- What an array refers to is an object. -/
theorem Lists.live {d : Datum} (hl : Lists h a xs) (hs : h.Sound) (hd : some d ∈ xs) (hx : d.ref? = some x) :
    h.Live x := by
  obtain ⟨f, hf, -⟩ := bind_eq_ok.1 hl.length
  have ha := hs.info_iff.1 hf
  have hholds := holds_of_lists hs ha hl
  obtain ⟨i, hi⟩ := List.getElem?_of_mem hd
  generalize heq : some d = e at hi
  cases hholds.shows i e hi with
  | bits =>
    cases heq
    cases hx
  | reference storage =>
    obtain ⟨y, hslot, rfl⟩ := Option.map_eq_some_iff.1 heq.symm
    cases hx
    obtain ⟨t, ht, -⟩ := isa_eq_ok.1 ((hs.arrays ha).body.fits storage i (hholds.lt hi) x hslot)
    exact live_of_typeOf ht

/-- Asking for an element changes nothing, whether or not there is one. -/
theorem get_asks (hs : h.Sound) (a : Value) (i : Nat) :
    Action.Meets Eq (get a i) h fun d _ => ∀ x, d.ref? = some x → h.Live x := by
  cases hinfo : info h a with
  | error e =>
    have hrun : (get a i).runOn h = (.error e, h) := Action.runOn_bind_error (by rw [Action.runOn_look, hinfo])
    exact .of_runOn hrun rfl nofun
  | ok f =>
    obtain ⟨xs, hl⟩ := exists_lists hs (hs.info_iff.1 hinfo)
    exact .of_runOn (hl.get i) rfl fun d hd x hx => hl.live hs (mem_of_answer hd) hx

end ArrayObject

end TypedHeap
