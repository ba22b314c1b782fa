import TypedHeap.Proofs.Session.Run

/-!
# Arrays are as their words say

Seven words describe an array, and they are written at different times: when it is made, when its length
changes, when it moves to a larger buffer, when it gets a view. They agree between any two operations.

* `Heap.Vacated`: slots beyond the length hold nothing.
* `Heap.Represented`: the words of an array, its type and its buffer agree.

Main result: `Session.Reachable.arrays_represented`.
-/

namespace TypedHeap

open Heap ArrayObject

namespace Heap

variable {h : Heap} {a : Value} {f : ArrayInfo}

/-! ## Representation -/

/-- The bytes of a buffer that belong to slots between the length and the capacity of an array are
zero, and so are the selectors of these slots. -/
def Vacated (f : ArrayInfo) (bs : List UInt8) : Prop :=
  ∀ i, f.length ≤ i → i < f.capacity →
    (∀ j, j < f.flags.slotSize → bs[f.slotOffset i + j]? = some 0) ∧
      (f.flags.storage = .selected → bs[f.selectorOffset i]? = some 0)

/-- The words of an array agree with each other, with its type and with its buffer. -/
structure Represented (h : Heap) (a : Value) (f : ArrayInfo) : Prop where
  /-- The dimensions multiply up to the length, which the capacity covers. -/
  dims : ∃ ds, ArrayObject.dims h a = .ok ds ∧ ds.prod = f.length ∧ ds.length = f.flags.ndims
  room : f.length ≤ f.capacity
  rank : ∃ d n, h.descriptor a = .ok d ∧ d.kind = .array ∧ d.params = [.type f.elem, .int n] ∧
    n.toInt = f.flags.ndims
  widths : f.flags.ndims ≤ 65535 ∧ f.flags.slotSize ≤ 65535
  storage : (elementStorage f.elem).runOn h = (.ok (f.flags.storage, f.flags.slotSize), h)
  /-- The buffer has room for the capacity and for its selectors, and for nothing else. -/
  buffer : Buffer.length h f.buffer =
    .ok (f.capacity * f.flags.slotSize + f.flags.storage.selectorBytes f.capacity)
  data : h.readRef (a.offset + bufferWord) = .ok (some f.buffer)
  owner : ArrayObject.owner h a = .ok f.buffer
  vacated : ∃ bs, Buffer.data h f.buffer = .ok bs ∧ Vacated f bs

theorem Sound.length_buffer {b : Value} (hs : h.Sound) (hb : h.typeOf b = .ok Builtin.buffer) :
    Buffer.length h b = .ok (h.word b 0) := by
  have hend := hs.end_le_top (hs.size_buffer hb)
  rw [refSize] at hend
  exact bind_eq_ok.2 ⟨⟨⟩, expectType_eq_ok.2 hb, readWord_eq (k := 0) (by omega)⟩

theorem Sound.data_buffer {b : Value} (hs : h.Sound) (hb : h.typeOf b = .ok Builtin.buffer) :
    Buffer.data h b = .ok (h.memory.window (b.offset + refSize) (h.word b 0)) := by
  have hend := hs.end_le_top (hs.size_buffer hb)
  exact bind_eq_ok.2 ⟨_, hs.length_buffer hb, bytes_eq (by omega)⟩

theorem BodySound.vacated (hb : h.BodySound f) :
    Vacated f (h.memory.window (f.buffer.offset + refSize) (h.word f.buffer 0)) := by
  have hzero {j : Nat} (hj : f.Vacant j) :
      (h.memory.window (f.buffer.offset + refSize) (h.word f.buffer 0))[j]? = some 0 := by
    have hlt := hb.vacant_lt hj
    have hbyte := hb.vacant j hj
    rw [byte, ← Nat.add_assoc] at hbyte
    rw [List.getElem?_eq_getElem (by rw [Memory.length_window]; exact hlt), Memory.getElem_window, hbyte]
  intro i hlo hhi
  have hstart := f.slotOffset_mono hlo
  have hstop := f.slot_end_le hhi
  refine ⟨fun j hj => hzero (.inl ⟨by omega, by omega⟩), fun hsel => hzero (.inr ⟨hsel, ?_⟩)⟩
  simp only [ArrayInfo.selectorOffset]
  omega

theorem Sound.represented (hs : h.Sound) (ha : h.IsArray a f) : h.Represented a f := by
  obtain ⟨⟨t, d, n, ht, hd, hkind, hparams, hrank⟩, hcount, -, hb⟩ := hs.arrays ha
  refine ⟨⟨_, hs.dims_eq ha, (elementCount_eq_some hcount).1.symm, ?_⟩, hb.length_le, ?_, ⟨?_, ?_⟩, ?_, ?_, ?_, ?_, ?_⟩
  · rw [List.length_map, List.length_range]
  · exact ⟨d, n, descriptor_eq_ok.2 ⟨t, ht, hd⟩, hkind, hparams, hrank⟩
  · obtain ⟨elem, m, hparams', -, hmax⟩ := hs.registry.types.array hd hkind
    rw [hparams] at hparams'
    cases hparams'
    rw [hrank] at hmax
    exact Int.ofNat_le.1 hmax
  · exact Nat.le_of_lt_succ hb.stored.slotSize_lt
  · exact runOn_elementStorage hs.registry hb.stored
  · rw [hs.length_buffer hb.buffer, hb.room_eq]
    rfl
  · exact hs.readRef_buffer ha
  · exact bind_eq_ok.2 ⟨f, hs.info_iff.2 ha, bind_eq_ok.2 ⟨some f.buffer, hs.readRef_owner ha, rfl⟩⟩
  · exact ⟨_, hs.data_buffer hb.buffer, hb.vacated⟩

end Heap

/-! ## Sessions -/

namespace Session

variable {s : Session}

/-- In every heap that operations lead to, arrays are as their words say. Those that were asked for are
arrays, and arrays stay arrays. -/
theorem Reachable.arrays_represented (hs : Reachable s) :
    (∀ a f, info s.heap a = .ok f → s.heap.Represented a f) ∧
      (∀ a ∈ s.arrays, ∃ f, info s.heap a = .ok f) ∧
      ∀ t, Leads s t → ∀ a f, info s.heap a = .ok f → ∃ g, info t.heap a = .ok g := by
  have hsound := hs.sound
  refine ⟨fun a f hf => hsound.heap.represented (hsound.heap.info_iff.1 hf), fun a ha => ?_, ?_⟩
  · obtain ⟨f, hf⟩ := hsound.arrays a ha
    exact ⟨f, hsound.heap.info_iff.2 hf⟩
  · intro t h a f hf
    obtain ⟨g, hg⟩ := h.isArray hsound (hsound.heap.info_iff.1 hf)
    exact ⟨g, (h.sound hsound).heap.info_iff.2 hg⟩

/-- A vector of small bits of two types, from which all but one element were dropped. -/
def shrunk : Session :=
  start ⟨64, 4096⟩ .off
    |>.next (.union [Builtin.int8, Builtin.bool])
    |>.next (.newVector ⟨21, by decide, by decide⟩ 3)
    |>.next (.elementWriteScalar (object 48) 2 .bool true)
    |>.next (.resize (object 48) 1)

theorem arrays_represented_shrunk :
    Reachable shrunk ∧ ∃ f, info shrunk.heap (object 48) = .ok f ∧
      f.flags.storage = .selected ∧ f.length = 1 ∧ f.capacity = 3 ∧
      shrunk.heap.Represented (object 48) f := by
  have hs : Reachable shrunk :=
    ((((reachable_start _ _).next _ (by nofun)).next _ (by nofun)).next _ (by nofun)).next _ (by nofun)
  have hinfo : info shrunk.heap (object 48) =
      .ok ⟨⟨21, by decide, by decide⟩, ⟨1, .selected, false, 1⟩, 1, 3, object 16⟩ := by
    decide +kernel
  exact ⟨hs, _, hinfo, rfl, rfl, rfl, hs.arrays_represented.1 _ _ hinfo⟩

end Session

end TypedHeap
