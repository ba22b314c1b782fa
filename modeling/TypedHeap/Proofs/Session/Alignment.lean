import TypedHeap.Proofs.Array.Pointers
import TypedHeap.Proofs.Layout.Alignment
import TypedHeap.Proofs.Session.Layouts

/-!
# Alignment along a run

Objects begin at multiples of every alignment, and what lies inside a struct or tuple is aligned at any depth. The
elements of an array begin one word behind the beginning of an object, which suits every alignment but the greatest
one. From there they keep the alignment of the first as long as their size is a multiple of it. All sizes are, unless
a primitive type was declared otherwise.

* `Heap.FieldsAligned`, `Heap.SlotsAligned`: how values are aligned inside objects and in buffers.
* `Heap.Rounded`: how sizes go with alignments.

Main results: `Session.Reachable.storage_aligned`, `Session.Reachable.sizes_rounded`.
-/

namespace TypedHeap

open TypedHeap.Action (Meets)
open Heap ArrayObject

/-! ## Multiples of an alignment -/

section Alignment

variable {a n size : Nat}

/-- Payloads begin at multiples of every alignment. -/
theorem dvd_payloadAlign (ha : a ∈ TypeTable.alignments) : a ∣ payloadAlign := by
  have hall : ∀ a ∈ TypeTable.alignments, a ∣ payloadAlign := by decide
  exact hall a ha

/-- Behind the word in front of it, the data of a buffer begins at a multiple of every alignment but the greatest. -/
theorem dvd_behind_word_iff (ha : a ∈ TypeTable.alignments) (hn : payloadAlign ∣ n) :
    a ∣ n + refSize ↔ a ≠ payloadAlign := by
  have hall : ∀ a ∈ TypeTable.alignments, (a ∣ refSize ↔ a ≠ payloadAlign) := by decide
  rw [← hall a ha]
  exact Nat.dvd_add_right (Nat.dvd_trans (dvd_payloadAlign ha) hn)

/-- Places that follow each other at a distance are aligned alike exactly if the distance is a multiple of the
alignment. -/
theorem dvd_stride_iff : a ∣ size ↔ ∀ i, (n + i * size) % a = n % a := by
  constructor
  · rintro ⟨c, rfl⟩ i
    rw [Nat.mul_left_comm]
    exact Nat.add_mul_mod_self_left n a (i * c)
  · intro h
    have hone := h 1
    rw [Nat.one_mul] at hone
    have hsub := Nat.sub_mod_eq_zero_of_mod_eq hone
    rw [Nat.add_sub_cancel_left] at hsub
    exact Nat.dvd_of_mod_eq_zero hsub

end Alignment

/-! ## Objects and buffers -/

namespace Heap

variable {h : Heap} {a v : Value} {f : ArrayInfo} {t u : TypeRef} {l : Layout} {off : Nat}

/-- Whatever lies inside a struct or tuple begins at a multiple of the alignment of its type. -/
def FieldsAligned (h : Heap) : Prop :=
  ∀ v t d off u, h.typeOf v = .ok t → h.types.descriptor t = .ok d → d.kind = .struct ∨ d.kind = .tuple →
    h.registry.Inlines t off u →
    ∃ n, (Operation.alignmentOf u).perform.runOn h = (.ok n, h) ∧ n ∣ v.offset + off

/-- Elements that lie in the buffer of an array and have a size that is a multiple of their alignment begin at
multiples of it, unless that is the alignment of payloads. Then none of them does. -/
def SlotsAligned (h : Heap) : Prop :=
  ∀ a f p, info h a = .ok f → f.flags.storage = .flat → data h a = .ok p →
    ∃ n, (Operation.alignmentOf f.elem).perform.runOn h = (.ok n, h) ∧ n ∈ TypeTable.alignments ∧
      (Operation.sizeOf f.elem).perform.runOn h = (.ok f.flags.slotSize, h) ∧
      (n ∣ f.flags.slotSize → ∀ i, n ∣ p.offset + i * f.flags.slotSize ↔ n ≠ payloadAlign)

/-- Alignments are powers of two that divide sizes, except those of primitive types, which have what they were
declared with. Elements of an array keep the alignment of the first exactly if theirs does. -/
structure Rounded (h : Heap) : Prop where
  sizes : ∀ t l h', (Operation.layout t).perform.runOn h = (.ok l, h') →
    ∃ d, h.types.descriptor t = .ok d ∧ (∃ k ≤ 4, l.alignment = 2 ^ k) ∧
      (∀ size align, d.kind = .primitive size align → l.size = size.toNat ∧ l.alignment = align.toNat) ∧
      ((∀ size align, d.kind ≠ .primitive size align) → l.alignment ∣ l.size)
  elements : ∀ a f p, info h a = .ok f → f.flags.storage = .flat → data h a = .ok p →
    ∃ l, (Operation.layout f.elem).perform.runOn h = (.ok l, h) ∧ l.size = f.flags.slotSize ∧
      (l.alignment ∣ l.size ↔ ∀ i, (p.offset + i * f.flags.slotSize) % l.alignment = p.offset % l.alignment)

theorem runOn_alignmentOf (hs : h.registry.Sound) (hl : h.registry.layouts.find? t = some l) :
    (Operation.alignmentOf t).perform.runOn h = (.ok l.alignment, h) := by
  show (onRegistry (Registry.alignmentOf t)).runOn h = _
  rw [runOn_onRegistry, Registry.runOn_alignmentOf hs hl]

theorem Sound.payloadAlign_dvd (hs : h.Sound) (hv : h.Live v) : payloadAlign ∣ v.offset :=
  Nat.dvd_of_mod_eq_zero (hs.arena.offset_mod hv)

theorem Sound.fieldsAligned (hs : h.Sound) : h.FieldsAligned := by
  intro v t d off u ht hd hkind hin
  obtain ⟨l, hl⟩ := hs.exists_layout ht hd (by rcases hkind with hkind | hkind <;> rw [hkind] <;> rfl)
  obtain ⟨k, hk, hoffset, -⟩ := hin.aligned hs.registry hl
  have halign := hs.registry.layouts.aligned hk
  have hobject := Nat.dvd_trans (dvd_payloadAlign halign) (hs.payloadAlign_dvd (live_of_typeOf ht))
  exact ⟨k.alignment, runOn_alignmentOf hs.registry hk, Nat.dvd_add hobject hoffset⟩

theorem Sound.slotsAligned (hs : h.Sound) : h.SlotsAligned := by
  intro a f p hf hflat hp
  have ha := hs.info_iff.1 hf
  have hbody := (hs.arrays ha).body
  rw [data_of_isArray hs ha] at hp
  cases hp
  have hstored := hbody.stored
  rw [hflat] at hstored
  obtain ⟨l, hl, -, hsize⟩ := hstored.flat_bits
  have halign := hs.registry.layouts.aligned hl
  refine ⟨l.alignment, runOn_alignmentOf hs.registry hl, halign, runOn_sizeOf hs.registry ⟨l, hl, hsize⟩,
    fun hdvd i => ?_⟩
  rw [← dvd_behind_word_iff halign (hs.payloadAlign_dvd (live_of_typeOf hbody.buffer))]
  exact Nat.dvd_add_left (Nat.dvd_trans hdvd (Nat.dvd_mul_left _ i))

theorem Sound.rounded (hs : h.Sound) : h.Rounded where
  sizes t l h' hrun := by
    obtain ⟨m, -, hm, hl⟩ := layout_remembered hs.registry hrun
    obtain ⟨d, hd, hdesc⟩ := hm.describes hl
    have hall : ∀ a ∈ TypeTable.alignments, ∃ k ≤ 4, a = 2 ^ k := by decide
    refine ⟨d, hd, hall _ (hm.aligned hl), fun size align hkind => ?_, hm.dvd_size hd hl⟩
    unfold Layouts.Describes at hdesc
    simp only [hkind] at hdesc
    subst hdesc
    exact ⟨rfl, rfl⟩
  elements a f p hf hflat hp := by
    have hstored := (hs.arrays (hs.info_iff.1 hf)).body.stored
    rw [hflat] at hstored
    obtain ⟨l, hl, -, hsize⟩ := hstored.flat_bits
    refine ⟨l, runOn_layout hs.registry hl, hsize, ?_⟩
    rw [hsize]
    exact dvd_stride_iff

end Heap

namespace Session

variable {s : Session}

/-! ## Places -/

/-- In every heap that operations lead to, inline fields are aligned at any depth, and so are the elements of arrays
unless they ask for the alignment of payloads. -/
theorem Reachable.storage_aligned (hs : Reachable s) : s.heap.FieldsAligned ∧ s.heap.SlotsAligned :=
  ⟨hs.sound.heap.fieldsAligned, hs.sound.heap.slotsAligned⟩

/-- Bits that ask for the greatest alignment. -/
def quad : Declaration where
  name := "Quad"
  kind := .primitive 16 16

/-- Such bits inside a tuple that is inside another one, and in an array. -/
def quads : Session :=
  start ⟨64, 4096⟩ .off
    |>.next (.define quad)
    |>.next (.tupleType [Builtin.int8, tier 0])
    |>.next (.tupleType [Builtin.int8, tier 1])
    |>.next (.allocate (tier 2) 0)
    |>.next (.newVector (tier 0) 1)

theorem reachable_quads : Reachable quads :=
  (((((reachable_start _ _).next _ (allows_of_none rfl)).next _ (allows_of_none rfl)).next _
    (allows_of_none rfl)).next _ (allows_of_none rfl)).next _ (allows_of_none rfl)

/-- The bits in the inner tuple are aligned, and the array has its data one word behind a multiple of sixteen. -/
theorem storage_aligned_quads :
    Reachable quads ∧ quads.heap.registry.Inlines (tier 2) 32 (tier 0) ∧
      (∃ n, (Operation.alignmentOf (tier 0)).perform.runOn quads.heap = (.ok n, quads.heap) ∧
        n ∣ (object 16).offset + 32) ∧
      data quads.heap (object 112) = .ok ⟨object 80, 88⟩ ∧ quads.heap.SlotsAligned := by
  have houter : ((Registry.layout (tier 2)).runOn quads.heap.registry).1 =
      .ok ⟨48, 16, [⟨"1", Builtin.int8, 0, 1, true⟩, ⟨"2", tier 1, 16, 32, true⟩], [], true, true⟩ := by decide +kernel
  have hinner : ((Registry.layout (tier 1)).runOn quads.heap.registry).1 =
      .ok ⟨32, 16, [⟨"1", Builtin.int8, 0, 1, true⟩, ⟨"2", tier 0, 16, 16, true⟩], [], true, true⟩ := by decide +kernel
  have hin : quads.heap.registry.Inlines (tier 2) 32 (tier 0) :=
    .field (.field .self houter (.tail _ (.head _)) rfl) hinner (.tail _ (.head _)) rfl
  have htype : quads.heap.typeOf (object 16) = .ok (tier 2) := by decide +kernel
  have hkind : (quads.heap.types.descriptor (tier 2)).toOption.map Descriptor.kind = some .tuple := by decide +kernel
  have hdata : data quads.heap (object 112) = .ok ⟨object 80, 88⟩ := by decide +kernel
  obtain ⟨hfields, hslots⟩ := reachable_quads.storage_aligned
  cases hd : quads.heap.types.descriptor (tier 2) with
  | error e =>
    rw [hd] at hkind
    cases hkind
  | ok d =>
    rw [hd] at hkind
    exact ⟨reachable_quads, hin, hfields _ _ d _ _ htype hd (.inr (Option.some.inj hkind)) hin, hdata, hslots⟩

/-- Elements may ask for an alignment that no array gives them. -/
theorem quad_misplaced :
    Reachable quads ∧ ∃ f, info quads.heap (object 112) = .ok f ∧ f.flags.storage = .flat ∧ f.elem = tier 0 ∧
      f.length = 1 ∧ f.flags.slotSize = 16 ∧ data quads.heap (object 112) = .ok ⟨object 80, 88⟩ ∧
      ((Operation.alignmentOf (tier 0)).perform.runOn quads.heap).1 = .ok 16 ∧ ¬16 ∣ 88 + 0 * f.flags.slotSize :=
  ⟨reachable_quads, ⟨tier 0, ⟨1, .flat, false, 16⟩, 1, 1, object 80⟩, by decide +kernel, rfl, rfl, rfl, rfl, by decide +kernel,
    by decide +kernel, by decide⟩

/-! ## Sizes -/

/-- In every heap that operations lead to, sizes are multiples of alignments as far as no primitive type says
otherwise. -/
theorem Reachable.sizes_rounded (hs : Reachable s) : s.heap.Rounded := hs.sound.heap.rounded

/-- Bits of an odd size that ask for an even alignment. -/
def triple : Declaration where
  name := "Triple"
  kind := .primitive 3 2

/-- Two of them in an array, and one behind a number in a tuple. -/
def triples : Session :=
  start ⟨64, 4096⟩ .off
    |>.next (.define triple)
    |>.next (.tupleType [Builtin.int8, tier 0])
    |>.next (.newVector (tier 0) 2)

theorem reachable_triples : Reachable triples :=
  (((reachable_start _ _).next _ (allows_of_none rfl)).next _ (allows_of_none rfl)).next _ (allows_of_none rfl)

/-- The size of the tuple is rounded up. -/
theorem sizes_rounded_triples :
    Reachable triples ∧ triples.heap.Rounded ∧
      ((Operation.layout (tier 1)).perform.runOn triples.heap).1.toOption.map (fun l => (l.size, l.alignment)) =
        some (6, 2) :=
  ⟨reachable_triples, reachable_triples.sizes_rounded, by decide +kernel⟩

/-- The size of the bits themselves is not, so the second element of the array begins at an odd offset. -/
theorem triple_unrounded :
    Reachable triples ∧
      (Operation.layout (tier 0)).perform.runOn triples.heap = (.ok (Layout.bits 3 2), triples.heap) ∧
      ¬(Layout.bits 3 2).alignment ∣ (Layout.bits 3 2).size ∧
      ∃ f p, info triples.heap (object 48) = .ok f ∧ f.flags.storage = .flat ∧ f.elem = tier 0 ∧ f.length = 2 ∧
        data triples.heap (object 48) = .ok p ∧ p.offset % 2 = 0 ∧ (p.offset + 1 * f.flags.slotSize) % 2 = 1 := by
  have hmemo : triples.heap.registry.layouts.find? (tier 0) = some (Layout.bits 3 2) := by decide +kernel
  exact ⟨reachable_triples, runOn_layout reachable_triples.sound.heap.registry hmemo, by decide,
    ⟨tier 0, ⟨1, .flat, false, 3⟩, 2, 2, object 16⟩, ⟨object 16, 24⟩, by decide +kernel, rfl, rfl, rfl,
    by decide +kernel, rfl, rfl⟩

end Session

end TypedHeap
