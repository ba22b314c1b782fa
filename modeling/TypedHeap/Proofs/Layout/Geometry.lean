import Mathlib.Algebra.Group.Nat.Defs
import Mathlib.Data.List.Forall2
import Mathlib.Data.List.Pairwise
import TypedHeap.Layout.Basic
import TypedHeap.Proofs.Failure
import TypedHeap.Types.Declare

/-!
# Where fields lie

Fields that are placed in order lie one after the other inside the object, each at a multiple of its
alignment. The layout of a product is found by sums of words; here it is described by sums of numbers, and
the two agree as long as every sum is a word.

* `placeFrom`, `endFrom`, `hasGapFrom`, `Layout.ofSlots`: a product laid out in numbers.
* `Slot.Placed`: a field as it was before it was placed, and after.
* `Layout.Separate`: two runs of bytes that share none.

Main results: `Word.alignUp_eq_ok`, by which clearing the low bits of a word finds a multiple,
`Layout.eq_ofSlots`, `Layout.placed_ofSlots`, by which words lead to the layout in numbers or overflow,
`placed_placeFrom`, `Layout.ofSlots_end_le`, `Layout.ofSlots_separate`.
-/

namespace TypedHeap

/-! ## Layouts in numbers -/

/-- Fields placed in order, the first one at or after `off`. -/
def placeFrom (off : Nat) : List Slot → List FieldLayout
  | [] => []
  | s :: rest =>
    let start := alignUp off s.align
    ⟨s.name, s.type, start, s.size, s.isInline⟩ :: placeFrom (start + s.size) rest

/-- The end of the last field when they are placed from `off` on. -/
def endFrom (off : Nat) : List Slot → Nat
  | [] => off
  | s :: rest => endFrom (alignUp off s.align + s.size) rest

/-- Whether placing the fields from `off` on leaves a gap in front of one of them. -/
def hasGapFrom (off : Nat) : List Slot → Bool
  | [] => false
  | s :: rest =>
    let start := alignUp off s.align
    start != off || hasGapFrom (start + s.size) rest

/-- The offsets of the fields that are stored as references. -/
def referenceOffsets (fields : List FieldLayout) : List Nat :=
  (fields.filter (!·.isInline)).map FieldLayout.offset

/-- The layout of a product of fields. -/
def Layout.ofSlots (isMutable : Bool) (slots : List Slot) : Layout :=
  let fields := placeFrom 0 slots
  let stop := endFrom 0 slots
  let alignment := slots.foldl (fun a s => max a s.align) 1
  let size := alignUp stop alignment
  { size, alignment, fields
    pointerOffsets := referenceOffsets fields
    isBits := !isMutable && (referenceOffsets fields).isEmpty
    hasPadding := hasGapFrom 0 slots || size != stop }

/-! ## Alignments -/

namespace TypeTable

variable {a b : Nat}

theorem refSize_mem : refSize ∈ alignments := by decide

theorem pos_of_alignment (ha : a ∈ alignments) : 0 < a := by
  have hall : ∀ a ∈ alignments, 0 < a := by decide
  exact hall a ha

theorem alignment_le (ha : a ∈ alignments) : a ≤ 16 := by
  have hall : ∀ a ∈ alignments, a ≤ 16 := by decide
  exact hall a ha

theorem exists_two_pow (ha : a ∈ alignments) : ∃ k, a = 2 ^ k := by
  have hall : ∀ a ∈ alignments, ∃ k ≤ 4, a = 2 ^ k := by decide
  obtain ⟨k, -, hk⟩ := hall a ha
  exact ⟨k, hk⟩

theorem max_alignment_mem (ha : a ∈ alignments) (hb : b ∈ alignments) : max a b ∈ alignments := by
  rcases Nat.le_total a b with h | h
  · rwa [Nat.max_eq_right h]
  · rwa [Nat.max_eq_left h]

end TypeTable

/-! ## Words and numbers -/

namespace Word

variable {a c k n : Nat}

/-- Nothing goes wrong with a sum but that it is no word. -/
theorem add_raises (a b : Nat) : Raises (add a b) (· = .overflow) := by
  unfold add
  split
  · exact .ok
  · exact .error rfl

theorem alignUp_raises (n a : Nat) : Raises (alignUp n a) (· = .overflow) :=
  (add_raises n a).bind fun _ _ => .pure

/-- The bits of a word inside a mask and those outside it make up the word. -/
theorem toNat_mask (x m : BitVec 64) : (x &&& ~~~m).toNat + (x &&& m).toNat = x.toNat := by
  have hdisjoint : (x &&& ~~~m) &&& (x &&& m) = 0#64 := by
    ext i
    simp only [BitVec.getElem_and, BitVec.getElem_not]
    cases m[i] <;> simp
  have hunion : (x &&& ~~~m) ||| (x &&& m) = x := by
    ext i
    simp only [BitVec.getElem_or, BitVec.getElem_and, BitVec.getElem_not]
    cases x[i] <;> cases m[i] <;> rfl
  rw [← BitVec.toNat_add_of_and_eq_zero hdisjoint, BitVec.add_eq_or_of_and_eq_zero _ _ hdisjoint, hunion]

/-- Clearing the bits below a power of two leaves the greatest multiple of it that is not above. -/
theorem toNat_clear (hn : n < 2 ^ 64) (ha : a = 2 ^ k) (hlt : a < 2 ^ 64) :
    (BitVec.ofNat 64 n &&& ~~~BitVec.ofNat 64 (a - 1)).toNat = n / a * a := by
  have hword : (BitVec.ofNat 64 n).toNat = n := by rw [BitVec.toNat_ofNat, Nat.mod_eq_of_lt hn]
  have hmask : (BitVec.ofNat 64 (a - 1)).toNat = a - 1 := by
    rw [BitVec.toNat_ofNat, Nat.mod_eq_of_lt (Nat.lt_of_le_of_lt (Nat.sub_le a 1) hlt)]
  have hlow : (BitVec.ofNat 64 n &&& BitVec.ofNat 64 (a - 1)).toNat = n % a := by
    rw [BitVec.toNat_and, hword, hmask, ha, Nat.and_two_pow_sub_one_eq_mod]
  have hparts := toNat_mask (BitVec.ofNat 64 n) (BitVec.ofNat 64 (a - 1))
  rw [hlow, hword] at hparts
  have hdiv := Nat.div_add_mod n a
  rw [Nat.mul_comm]
  omega

/-- For a power of two, what the bits say is the first multiple, unless the sum is no word. -/
theorem alignUp_eq_ok (ha : a = 2 ^ k) :
    alignUp n a = .ok c ↔ n + a < 2 ^ 64 ∧ c = TypedHeap.alignUp n a := by
  unfold alignUp add
  split
  · rename_i h
    have hclear := toNat_clear (n := n + a - 1) (by omega) ha (by omega)
    show Except.ok (_ : BitVec 64).toNat = .ok c ↔ _
    rw [hclear]
    exact ⟨fun heq => ⟨h, (Except.ok.inj heq).symm⟩, fun heq => congrArg Except.ok heq.2.symm⟩
  · rename_i h
    exact ⟨nofun, fun heq => absurd heq.1 h⟩

end Word

namespace Draft

open TypeTable (alignments)

variable {d d' : Draft} {s : Slot} {slots : List Slot}

/-- A layout in the making with one more field, in numbers. -/
def next (d : Draft) (s : Slot) : Draft where
  stop := alignUp d.stop s.align + s.size
  alignment := max d.alignment s.align
  fields := d.fields ++ [⟨s.name, s.type, alignUp d.stop s.align, s.size, s.isInline⟩]
  pointerOffsets := if s.isInline then d.pointerOffsets else d.pointerOffsets ++ [alignUp d.stop s.align]
  hasPadding := d.hasPadding || alignUp d.stop s.align != d.stop

theorem add_raises (d : Draft) (s : Slot) : Raises (d.add s) (· = .overflow) :=
  (Word.alignUp_raises _ _).bind fun _ _ => (Word.add_raises _ _).bind fun _ _ => .pure

theorem finish_raises (d : Draft) (isMutable : Bool) : Raises (d.finish isMutable) (· = .overflow) :=
  (Word.alignUp_raises _ _).bind fun _ _ => .pure

/-- A field has a place if all sums on the way are words. -/
theorem add_eq_ok (hs : s.align ∈ alignments) :
    d.add s = .ok d' ↔
      d.stop + s.align < 2 ^ 64 ∧ alignUp d.stop s.align + s.size < 2 ^ 64 ∧ d' = d.next s := by
  obtain ⟨k, hk⟩ := TypeTable.exists_two_pow hs
  unfold add
  simp only [bind_eq_ok, Word.alignUp_eq_ok hk, Word.add_eq_ok]
  constructor
  · rintro ⟨_, ⟨hfirst, rfl⟩, _, ⟨hsecond, rfl⟩, heq⟩
    exact ⟨hfirst, hsecond, (Except.ok.inj heq).symm⟩
  · rintro ⟨hfirst, hsecond, rfl⟩
    exact ⟨_, ⟨hfirst, rfl⟩, _, ⟨hsecond, rfl⟩, rfl⟩

/-- What becomes of a layout in the making when more fields get their places, in numbers. -/
theorem foldl_next (d : Draft) (slots : List Slot) :
    slots.foldl next d = {
      stop := endFrom d.stop slots
      alignment := slots.foldl (fun a s => max a s.align) d.alignment
      fields := d.fields ++ placeFrom d.stop slots
      pointerOffsets := d.pointerOffsets ++ referenceOffsets (placeFrom d.stop slots)
      hasPadding := d.hasPadding || hasGapFrom d.stop slots } := by
  induction slots generalizing d with
  | nil => simp [endFrom, placeFrom, hasGapFrom, referenceOffsets]
  | cons s slots ih =>
    rw [List.foldl_cons, ih]
    cases hinline : s.isInline <;>
      simp [next, endFrom, placeFrom, hasGapFrom, referenceOffsets, hinline, Bool.or_assoc]

/-- If the words do not overflow, they are the numbers. -/
theorem eq_foldl_next (hslots : ∀ s ∈ slots, s.align ∈ alignments) (h : slots.foldlM add d = .ok d') :
    d' = slots.foldl next d := by
  induction slots generalizing d with
  | nil => exact (Except.ok.inj h).symm
  | cons s slots ih =>
    rw [List.forall_mem_cons] at hslots
    rw [List.foldlM_cons] at h
    obtain ⟨d₁, hadd, h⟩ := bind_eq_ok.1 h
    obtain ⟨-, -, rfl⟩ := (add_eq_ok hslots.1).1 hadd
    exact ih hslots.2 h

end Draft

/-! ## Placing fields -/

/-- A field was given a place and is otherwise the same. -/
structure Slot.Placed (s : Slot) (f : FieldLayout) : Prop where
  name_eq : f.name = s.name
  type_eq : f.type = s.type
  size_eq : f.size = s.size
  isInline_eq : f.isInline = s.isInline
  dvd_offset : s.align ∣ f.offset

theorem placed_placeFrom (off : Nat) (slots : List Slot) :
    List.Forall₂ Slot.Placed slots (placeFrom off slots) := by
  induction slots generalizing off with
  | nil => exact .nil
  | cons s slots ih => exact .cons ⟨rfl, rfl, rfl, rfl, dvd_alignUp off s.align⟩ (ih _)

theorem le_endFrom {off : Nat} {slots : List Slot} (hpos : ∀ s ∈ slots, 0 < s.align) :
    off ≤ endFrom off slots := by
  induction slots generalizing off with
  | nil => exact Nat.le_refl off
  | cons s slots ih =>
    rw [List.forall_mem_cons] at hpos
    have h : alignUp off s.align + s.size ≤ endFrom (alignUp off s.align + s.size) slots := ih hpos.2
    have hoff : off ≤ alignUp off s.align := le_alignUp hpos.1
    rw [endFrom]
    omega

theorem bounds_placeFrom {off : Nat} {slots : List Slot} (hpos : ∀ s ∈ slots, 0 < s.align)
    {f : FieldLayout} (hf : f ∈ placeFrom off slots) :
    off ≤ f.offset ∧ f.offset + f.size ≤ endFrom off slots := by
  induction slots generalizing off with
  | nil => cases hf
  | cons s slots ih =>
    rw [List.forall_mem_cons] at hpos
    have hoff : off ≤ alignUp off s.align := le_alignUp hpos.1
    rw [endFrom]
    rcases List.mem_cons.1 hf with rfl | hf
    · exact ⟨hoff, le_endFrom hpos.2⟩
    · obtain ⟨hlo, hhi⟩ := ih hpos.2 hf
      exact ⟨by omega, hhi⟩

theorem pairwise_placeFrom {off : Nat} {slots : List Slot} (hpos : ∀ s ∈ slots, 0 < s.align) :
    (placeFrom off slots).Pairwise fun f g => f.offset + f.size ≤ g.offset := by
  induction slots generalizing off with
  | nil => exact .nil
  | cons s slots ih =>
    rw [List.forall_mem_cons] at hpos
    refine .cons (fun g hg => ?_) (ih hpos.2)
    exact (bounds_placeFrom hpos.2 hg).1

/-! ## Few bytes -/

section Words

open TypeTable (alignments)

variable {d d' : Draft} {slots : List Slot} {isMutable : Bool} {l : Layout}

/-- If the fields end far from the end of a word, the words do not overflow. -/
theorem Draft.foldlM_add (hslots : ∀ s ∈ slots, s.align ∈ alignments) (hend : endFrom d.stop slots + 16 < 2 ^ 64) :
    slots.foldlM add d = .ok (slots.foldl next d) := by
  induction slots generalizing d with
  | nil => rfl
  | cons s slots ih =>
    rw [List.forall_mem_cons] at hslots
    rw [endFrom] at hend
    have hle : alignUp d.stop s.align + s.size ≤ endFrom (alignUp d.stop s.align + s.size) slots :=
      le_endFrom fun s hs => TypeTable.pos_of_alignment (hslots.2 s hs)
    have hstart : d.stop ≤ alignUp d.stop s.align := le_alignUp (TypeTable.pos_of_alignment hslots.1)
    have halign := TypeTable.alignment_le hslots.1
    have hadd : d.add s = .ok (d.next s) := (Draft.add_eq_ok hslots.1).2 ⟨by omega, by omega, rfl⟩
    rw [List.foldlM_cons, hadd]
    exact ih hslots.2 hend

theorem foldl_align_mem {a : Nat} (ha : a ∈ alignments) (hslots : ∀ s ∈ slots, s.align ∈ alignments) :
    slots.foldl (fun a s => max a s.align) a ∈ alignments := by
  induction slots generalizing a with
  | nil => exact ha
  | cons s slots ih =>
    rw [List.forall_mem_cons] at hslots
    exact ih (TypeTable.max_alignment_mem ha hslots.1) hslots.2

theorem Draft.finish_eq_ok (hd : d.alignment ∈ alignments) :
    d.finish isMutable = .ok l ↔ d.stop + d.alignment < 2 ^ 64 ∧ l = {
      size := alignUp d.stop d.alignment
      alignment := d.alignment
      fields := d.fields
      pointerOffsets := d.pointerOffsets
      isBits := !isMutable && d.pointerOffsets.isEmpty
      hasPadding := d.hasPadding || alignUp d.stop d.alignment != d.stop } := by
  obtain ⟨k, hk⟩ := TypeTable.exists_two_pow hd
  unfold finish
  simp only [bind_eq_ok, Word.alignUp_eq_ok hk]
  constructor
  · rintro ⟨_, ⟨hsum, rfl⟩, heq⟩
    exact ⟨hsum, (Except.ok.inj heq).symm⟩
  · rintro ⟨hsum, rfl⟩
    exact ⟨_, ⟨hsum, rfl⟩, rfl⟩

/-- A product has the layout in numbers, and its size is a word, unless a sum overflows. -/
theorem Layout.eq_ofSlots (hslots : ∀ s ∈ slots, s.align ∈ alignments) (hl : placed isMutable slots = .ok l) :
    l = ofSlots isMutable slots ∧ l.size < 2 ^ 64 := by
  obtain ⟨d, hd, hl⟩ := bind_eq_ok.1 hl
  rw [Draft.eq_foldl_next hslots hd, Draft.foldl_next] at hl
  have halign : slots.foldl (fun a s => max a s.align) 1 ∈ alignments := foldl_align_mem (by decide) hslots
  obtain ⟨hsum, rfl⟩ := (Draft.finish_eq_ok halign).1 hl
  have hlt := alignUp_lt (n := endFrom 0 slots) (TypeTable.pos_of_alignment halign)
  exact ⟨rfl, Nat.lt_trans hlt hsum⟩

/-- A product whose fields end far from the end of a word has a layout. -/
theorem Layout.placed_ofSlots (hslots : ∀ s ∈ slots, s.align ∈ alignments) (hend : endFrom 0 slots + 16 < 2 ^ 64) :
    placed isMutable slots = .ok (ofSlots isMutable slots) := by
  have halign : slots.foldl (fun a s => max a s.align) 1 ∈ alignments := foldl_align_mem (by decide) hslots
  have hle := TypeTable.alignment_le halign
  have hsum : endFrom 0 slots + slots.foldl (fun a s => max a s.align) 1 < 2 ^ 64 := by omega
  refine bind_eq_ok.2 ⟨_, Draft.foldlM_add hslots hend, ?_⟩
  rw [Draft.foldl_next]
  exact (Draft.finish_eq_ok halign).2 ⟨hsum, rfl⟩

/-- If the words overflow, the fields end near the end of a word or behind it. -/
theorem Layout.placed_eq_error {e : Error} (hslots : ∀ s ∈ slots, s.align ∈ alignments)
    (he : placed isMutable slots = .error e) : e = .overflow ∧ 2 ^ 64 ≤ endFrom 0 slots + 16 := by
  refine ⟨?_, Nat.not_lt.1 fun hend => ?_⟩
  · exact Raises.bind (.foldlM fun d s _ => d.add_raises s) (fun d _ => d.finish_raises isMutable) e he
  · rw [placed_ofSlots hslots hend] at he
    cases he

end Words

/-! ## Layouts of products -/

namespace Layout

/-- Two fields have no byte in common. -/
def Separate (f g : FieldLayout) : Prop :=
  f.offset + f.size ≤ g.offset ∨ g.offset + g.size ≤ f.offset

instance : Std.Symm Separate := ⟨fun _ _ => Or.symm⟩

variable {isMutable : Bool} {slots : List Slot} {f g : FieldLayout}

theorem foldl_align_pos (n : Nat) (slots : List Slot) (hn : 0 < n) :
    0 < slots.foldl (fun a s => max a s.align) n := by
  induction slots generalizing n with
  | nil => exact hn
  | cons s slots ih => exact ih _ (Nat.lt_of_lt_of_le hn (Nat.le_max_left n s.align))

theorem ofSlots_alignment_pos : 0 < (ofSlots isMutable slots).alignment :=
  foldl_align_pos 1 slots Nat.one_pos

/-- Every field ends inside the object. -/
theorem ofSlots_end_le (hpos : ∀ s ∈ slots, 0 < s.align) (hf : f ∈ (ofSlots isMutable slots).fields) :
    f.offset + f.size ≤ (ofSlots isMutable slots).size := by
  have halignment : 0 < (ofSlots isMutable slots).alignment := ofSlots_alignment_pos
  exact Nat.le_trans (bounds_placeFrom hpos hf).2 (le_alignUp halignment)

/-- Different fields do not overlap. -/
theorem ofSlots_separate (hpos : ∀ s ∈ slots, 0 < s.align)
    (hf : f ∈ (ofSlots isMutable slots).fields) (hg : g ∈ (ofSlots isMutable slots).fields) :
    f = g ∨ Separate f g := by
  have hrel : (placeFrom 0 slots).Pairwise Separate := (pairwise_placeFrom hpos).imp fun h => .inl h
  by_cases h : f = g
  · exact .inl h
  · exact .inr (hrel.forall hf hg h)

/-- Bits hold no references. -/
theorem ofSlots_inline_of_isBits (h : (ofSlots isMutable slots).isBits = true)
    (hf : f ∈ (ofSlots isMutable slots).fields) : f.isInline = true := by
  have hempty : (referenceOffsets (placeFrom 0 slots)).isEmpty = true := (Bool.and_eq_true_iff.1 h).2
  rw [List.isEmpty_iff, referenceOffsets, List.map_eq_nil_iff, List.filter_eq_nil_iff] at hempty
  simpa using hempty f hf

end Layout

end TypedHeap
