import TypedHeap.Proofs.Array.Filling
import TypedHeap.Proofs.Array.Views
import TypedHeap.Proofs.Heap.Payloads

/-!
# Which shapes an array can have

Making an array depends on its extents in two ways: they have to be counted, and then their number and their
product say what type the array has and what memory it takes. A view of an array is made in the same way, over
elements that are there already.

* `Heap.SparesArray`, `Heap.SparesView`: what an array and a view take, given the rank and the length.

Main results: `ArrayObject.new_succeeds_iff`, `reshape_succeeds_iff`.
-/

namespace TypedHeap

open TypedHeap.Action (runOn_bind_ok runOn_bind_error runOn_bind_eq_ok Yields)
open Heap ArrayObject

variable {h h' : Heap} {a v : Value} {f : ArrayInfo} {elem t : TypeRef} {dims : List Nat} {rank n extra : Nat}

namespace Heap

/-! ## Room -/

/-- Arrays of a type may have the rank, there is or can be a type for them, elements of the type can be stored,
and there is memory for a buffer of `n` elements and for the words of the array. -/
def SparesArray (h : Heap) (elem : TypeRef) (rank n : Nat) : Prop :=
  rank ≤ TypeTable.maxRank ∧ ∃ t h₁ storage slotSize h₂ size,
    (onTypes (TypeTable.arrayType elem rank)).runOn h = (.ok t, h₁) ∧
      (elementStorage elem).runOn h₁ = (.ok (storage, slotSize), h₂) ∧ bufferSize storage slotSize n = some size ∧
        h.Affords (.object (refSize + size) ++ .object (ownerOffset rank + refSize))

/-- The same for a view, which has no buffer of its own. -/
def SparesView (h : Heap) (elem : TypeRef) (rank : Nat) : Prop :=
  rank ≤ TypeTable.maxRank ∧ ∃ t h₁, (onTypes (TypeTable.arrayType elem rank)).runOn h = (.ok t, h₁) ∧
    h.Affords (.object (ownerOffset rank + refSize))

/-- Memory is all that two objects need. -/
theorem affords_object (hroom : h.nextStart + n ≤ h.limit) : h.Affords (.object n) := ⟨hroom, trivial⟩

theorem affords_objects {n m : Nat} (hm : Made (.object n) h h') (hroom : h'.nextStart + m ≤ h'.limit) :
    h.Affords (.object n ++ .object m) := by
  refine ⟨?_, trivial⟩
  rw [nextStart, hm.top, limit, hm.config] at hroom
  exact hroom

theorem Affords.of_learns {d : Demand} (hl : h.Learns h') (ha : h'.Affords d) : h.Affords d := by
  obtain ⟨r, -, rfl⟩ := hl
  exact ⟨ha.room, ha.keys⟩

/-- Ranks are small numbers. -/
theorem toInt_ofNat_rank (hrank : rank ≤ TypeTable.maxRank) : (Int64.ofNat rank).toInt = rank :=
  Int64.toInt_ofNat_of_lt (Nat.lt_of_le_of_lt hrank (by decide))

/-- A new array object says that there was room for it. -/
theorem Orderly.room_of_array (ho : h.Orderly)
    (ht : h.types.Stands Builtin.arrayFamily [.type elem, .int (Int64.ofNat rank)] t) (hrank : rank ≤ TypeTable.maxRank)
    (hrun : (allocate t rank).runOn h = (.ok v, h')) : h.nextStart + (ownerOffset rank + refSize) ≤ h.limit := by
  obtain ⟨n, hn, hroom⟩ := ho.sound.room_of_allocate hrun
  rwa [hn.eq_of_array ho ht (toInt_ofNat_rank hrank)] at hroom

end Heap

namespace ArrayObject

/-! ## New arrays -/

/-- The rank of an array is a rank that array types may have. -/
theorem rank_le (hs : h.Sound) (ha : h.IsArray a f) : f.flags.ndims ≤ TypeTable.maxRank :=
  Nat.le_of_lt_succ (hs.rank_lt (hs.arrays ha).type)

theorem spares_of_new (ho : h.Orderly) (hdims : ∀ d ∈ dims, d < 0x10000000000000000)
    (hrun : (new elem dims).runOn h = (.ok a, h')) : Counted dims ∧ h.SparesArray elem dims.length dims.prod := by
  have hready : Ready (fun _ _ => True) h := ⟨ho.sound, fun _ _ => trivial⟩
  have hrank : dims.length ≤ TypeTable.maxRank := by
    have hmeets := new_meets hready elem hdims
    obtain ⟨f, hf⟩ := hmeets.answer a (by rw [hrun])
    rw [← hf.ndims]
    exact rank_le (hmeets.kept.sound ho.sound) hf.array
  unfold new at hrun
  cases hcount : elementCount dims with
  | none =>
    rw [hcount] at hrun
    cases hrun
  | some n =>
    obtain ⟨hcounted, rfl⟩ := elementCount_eq_some_iff.1 hcount
    rw [hcount] at hrun
    obtain ⟨t, h₁, htype, hrun⟩ := runOn_bind_eq_ok.1 hrun
    obtain ⟨⟨storage, slotSize⟩, h₂, hstored, hrun⟩ := runOn_bind_eq_ok.1 hrun
    dsimp only at hrun
    cases hsize : bufferSize storage slotSize dims.prod with
    | none =>
      rw [hsize] at hrun
      cases hrun
    | some size =>
      rw [hsize] at hrun
      obtain ⟨buffer, h₃, hbuffer, hrun⟩ := runOn_bind_eq_ok.1 hrun
      obtain ⟨a, h₄, harray, -⟩ := runOn_bind_eq_ok.1 hrun
      obtain ⟨hl, ht₂⟩ := learns_of_stored ho.sound htype hstored
      have ho₂ := (Made.learns ho.sound hl).orderly ho
      -- The buffer was made, so there was room for it, and what is left has room for the array.
      obtain ⟨m, hm, hroom⟩ := ho₂.sound.room_of_allocate hbuffer
      rw [hm.eq_of_buffer ho₂.sound.descriptor_buffer rfl] at hroom
      obtain ⟨buffer', h₃', hbuffer', hmade, -⟩ := allocate_buffer_makes ho₂ (affords_object hroom)
      cases hbuffer.symm.trans hbuffer'
      have ht₃ := ht₂.extends hmade.keeps.registry.types
      have hrest := (hmade.orderly ho₂).room_of_array ht₃.stands hrank harray
      exact ⟨hcounted, hrank, t, h₁, storage, slotSize, h₂, size, htype, hstored, hsize,
        .of_learns hl (affords_objects hmade hrest)⟩

/-- A new array is made if its extents are counted and there is room for that many elements, and only then. -/
theorem new_succeeds_iff (ho : h.Orderly) (hdims : ∀ d ∈ dims, d < 0x10000000000000000) :
    (∃ a, ((new elem dims).runOn h).1 = .ok a) ↔ Counted dims ∧ h.SparesArray elem dims.length dims.prod := by
  constructor
  · rintro ⟨a, ha⟩
    exact spares_of_new ho hdims (Prod.ext ha rfl)
  · rintro ⟨hcounted, hrank, t, h₁, storage, slotSize, h₂, size, htype, hstored, hsize, hroom⟩
    obtain ⟨a, h', hrun, -⟩ := new_yields ho (elementCount_of_counted hcounted) (toInt_ofNat_rank hrank) htype
      hstored hsize hroom
    exact ⟨a, by rw [hrun]⟩

/-- Extents that are not counted are refused before anything is done. -/
theorem runOn_new_uncounted (hnot : ¬Counted dims) :
    (new elem dims).runOn h = (.error (.invalidArgument ("array dims " ++ toString dims ++ " overflow")), h) := by
  unfold new
  rw [elementCount_eq_none_iff.2 hnot]
  rfl

/-! ## Views -/

theorem runOn_reshape_error (ha : info h a = .ok f) (hcount : elementCount dims ≠ some f.length) :
    (reshape a dims).runOn h = (.error (.invalidArgument ("cannot reshape " ++ toString f.length ++
      " elements into " ++ toString dims)), h) := by
  unfold reshape
  rw [runOn_bind_ok (by rw [Action.runOn_look, ha]), if_pos hcount]
  rfl

/-- Once the extents are found to fit, a view takes a type and an object. -/
theorem runOn_reshape (hs : h.Sound) (ha : h.IsArray a f) (hcount : elementCount dims = some f.length) :
    (reshape a dims).runOn h = (do
      let t ← onTypes (TypeTable.arrayType f.elem dims.length)
      let v ← allocate t dims.length
      writeAll v (viewOf f dims) dims f.buffer
      writeWord (a.offset + flagsWord) (shared f).flags.toWord
      return v : HeapM Value).runOn h := by
  have howner : owner h a = .ok f.buffer := hs.owner_eq ha
  unfold reshape
  rw [runOn_bind_ok (by rw [Action.runOn_look, hs.info_iff.2 ha]), if_neg (not_not_intro hcount),
    runOn_bind_ok (by rw [Action.runOn_look, howner])]
  rfl

/-- A view of an array is made if its extents are counted and multiply up to the length, and there is room for
it, and only then. -/
theorem reshape_succeeds_iff (ho : h.Orderly) (ha : h.IsArray a f) (hdims : ∀ d ∈ dims, d < 0x10000000000000000) :
    (∃ v, ((reshape a dims).runOn h).1 = .ok v) ↔
      (Counted dims ∧ dims.prod = f.length) ∧ h.SparesView f.elem dims.length := by
  have hs := ho.sound
  by_cases hcount : elementCount dims = some f.length
  · obtain ⟨hcounted, hprod⟩ := elementCount_eq_some_iff.1 hcount
    have hmeets := onTypes_meets (h := h) (TypeTable.arrayType_meets hs.registry.types f.elem dims.length)
    constructor
    · rintro ⟨v, hv⟩
      have hready : Ready (fun _ _ => True) h := ⟨hs, fun _ _ => trivial⟩
      have hview := reshape_meets (a := a) hready (fun _ _ _ _ => trivial) hdims
      obtain ⟨-, g, -, -, harray⟩ := hview.answer v hv
      have hrank : dims.length ≤ TypeTable.maxRank := rank_le (hview.kept.sound hs) harray
      rcases hrun : (reshape a dims).runOn h with ⟨r, h'⟩
      rw [hrun] at hv
      obtain rfl : r = .ok v := hv
      rw [runOn_reshape hs ha hcount] at hrun
      obtain ⟨t, h₁, htype, hrun⟩ := runOn_bind_eq_ok.1 hrun
      obtain ⟨v, h₂, halloc, -⟩ := runOn_bind_eq_ok.1 hrun
      have hl := hmeets.kept
      have ht := hmeets.answer t (by rw [htype])
      rw [htype] at hl ht
      have hroom := ((Made.learns hs hl).orderly ho).room_of_array ht.stands hrank halloc
      exact ⟨⟨hcounted, hprod.symm⟩, hrank, t, h₁, htype, .of_learns hl (affords_object hroom)⟩
    · rintro ⟨-, hrank, t, h₁, htype, hroom⟩
      have hl := hmeets.kept
      have ht := hmeets.answer t (by rw [htype])
      rw [htype] at hl ht
      have hm := Made.learns hs hl
      have hroom₁ : h₁.Affords (.object (ownerOffset dims.length + refSize)) :=
        Affords.after (d := .nothing) hroom hm
      obtain ⟨v, h₂, halloc, hmade, hnew⟩ :=
        allocate_array_makes (hm.orderly ho) ht.stands (toInt_ofNat_rank hrank) hroom₁
      have ha₂ := hm.sound.isArray_kept (hs.isArray_learns ha hl) hnew.kept fun _ => id
      have harray := arrayType_of_new hnew (ht.extends hnew.kept.registry.types).stands
      refine ⟨v, ?_⟩
      rw [runOn_reshape hs ha hcount, runOn_bind_ok htype, runOn_bind_ok halloc,
        runOn_buildView hmade.sound ha₂ harray]
  · rw [runOn_reshape_error (hs.info_iff.2 ha) hcount]
    refine ⟨nofun, fun h => absurd ?_ hcount⟩
    rw [elementCount_of_counted h.1.1, h.1.2]

end ArrayObject

end TypedHeap
