import TypedHeap.Proofs.Heap.Sound
import TypedHeap.Proofs.Types.Failures

/-!
# Questions that have no answer

In a sound heap a question about a value fails for one of few reasons, which lie with the value or with
what was asked for: it is no object, or an object of another type, or an array that was never given a
buffer.

Main results: `Sound.typeOf_raises`, `Sound.info_raises`.
-/

namespace TypedHeap

variable {h : Heap} {v a : Value} {t : TypeRef}

/-- An error about what a value is or what it holds. -/
def Error.IsAboutValue : Error → Prop
  | .invalidTag _ .notAnObject | .typeMismatch _ _ | .undefined _ => True
  | _ => False

open Error (IsAboutValue)

theorem Error.IsAboutValue.ne_overflow {e : Error} (he : IsAboutValue e) : e ≠ .overflow := by
  rintro rfl
  exact he

/-! ## Types and scalars -/

namespace Heap

/-- Decoding a scalar fails because of the bytes only. -/
theorem decode_raises (symbols : SymbolTable) (k : ScalarKind) (bs : List UInt8) :
    Raises (k.decode symbols bs) IsAboutValue := by
  unfold ScalarKind.decode
  refine Raises.ite (fun _ => Raises.error trivial) fun _ => ?_
  cases k <;> try exact Raises.ok
  case bool => exact Raises.ite (fun _ => .ok) fun _ => Raises.ite (fun _ => .ok) fun _ => .error trivial
  case char => exact Raises.dite (fun _ => .ok) fun _ => .error trivial
  all_goals
    unfold ScalarKind.ofWord
    dsimp only
    split
    · exact .ok
    · exact .error trivial

/-- The type of something fails to be known only if it is no object. -/
theorem Sound.typeOf_raises (hs : h.Sound) (v : Value) :
    Raises (h.typeOf v) fun e => e = .invalidTag v.offset .notAnObject := by
  by_cases hv : h.Live v
  · obtain ⟨t, ht⟩ := hs.exists_typeOf hv
    exact .of_eq_ok ht
  · have hsize : h.objectSize v = .error (.invalidTag v.offset .notAnObject) := by
      unfold objectSize
      split
      · rename_i n hn
        exact absurd ⟨n, hn⟩ hv
      · rfl
    unfold typeOf header
    rw [hsize]
    exact .error rfl

theorem Sound.expectType_raises (hs : h.Sound) (v : Value) (t : TypeRef) :
    Raises (h.expectType v t) IsAboutValue := by
  unfold expectType
  refine Raises.bind ((hs.typeOf_raises v).mono fun e he => ?_) fun s _ => ?_
  · rw [he]
    trivial
  · exact Raises.ite (fun _ => .throw trivial) fun _ => .pure

theorem Sound.descriptor_raises (hs : h.Sound) (v : Value) :
    Raises (h.descriptor v) fun e => e = .invalidTag v.offset .notAnObject := by
  unfold descriptor
  refine Raises.bind (hs.typeOf_raises v) fun t ht => ?_
  obtain ⟨d, n, hd, -, -⟩ := hs.exists_shaped ht
  exact .of_eq_ok hd

/-! ## Arrays -/

open ArrayObject

/-- An array that was allocated and never given a buffer. -/
def Unbuffered (h : Heap) (a : Value) : Prop := (∃ elem rank, h.ArrayType a elem rank) ∧ ∀ f, ¬h.IsArray a f

/-- Something does not tell about itself as an array if it is no array, or one without a buffer. -/
theorem Sound.info_raises (hs : h.Sound) (a : Value) : Raises (info h a) fun e =>
    e = .invalidTag a.offset .notAnObject ∨ (∃ addr, e = .invalidTag addr .unregistered) ∨
      (∃ expected got, e = .typeMismatch expected got) ∨
      e = .invalidTag a.offset .noBuffer ∧ h.Unbuffered a := by
  intro e he
  have hnone (f : ArrayInfo) : ¬h.IsArray a f := fun ha => by
    rw [hs.info_iff.2 ha] at he
    cases he
  revert e
  show Raises (info h a) _
  unfold info
  refine Raises.bind ((hs.descriptor_raises a).mono fun _ => .inl) fun d hd => ?_
  refine Raises.ite (fun _ => ?_) fun hkind => ?_
  · refine Raises.bind (((h.types.render_raises d.ref).mono fun _ he => .inr (.inl he))) fun text _ => ?_
    exact .throw (.inr (.inr (.inl ⟨_, _, rfl⟩)))
  have hkind : d.kind = .array := not_not.1 hkind
  obtain ⟨t, ht, hd⟩ := descriptor_eq_ok.1 hd
  obtain ⟨elem, n, hparams, hn, -⟩ := hs.registry.types.array hd hkind
  have htype : h.ArrayType a elem n.toInt.toNat := ⟨t, d, n, ht, hd, hkind, hparams, (Int.toNat_of_nonneg hn).symm⟩
  have hend := hs.end_le_top (hs.size_array htype)
  simp only [ownerOffset, refSize] at hend
  rw [hparams]
  have hword {k : Nat} (hk : k + 8 ≤ 32) : h.readWord (a.offset + k) = .ok (h.word a k) := readWord_eq (by omega)
  have hbuffer : h.readRef (a.offset + bufferWord) = .ok (h.slot a bufferWord) :=
    readRef_eq (by rw [bufferWord]; omega)
  refine Raises.bind (x := h.readWord (a.offset + flagsWord)) (.of_eq_ok (hword (by decide))) fun flags _ => ?_
  refine Raises.bind (.of_eq_ok hbuffer) fun slot _ => ?_
  cases slot with
  | none => exact .throw (.inr (.inr (.inr ⟨rfl, ⟨_, _, htype⟩, hnone⟩)))
  | some buffer =>
    refine Raises.bind (x := h.readWord (a.offset + lengthWord)) (.of_eq_ok (hword (by decide))) fun len _ => ?_
    refine Raises.bind (x := h.readWord (a.offset + capacityWord)) (.of_eq_ok (hword (by decide))) fun _ _ => ?_
    exact .pure

end Heap

end TypedHeap
