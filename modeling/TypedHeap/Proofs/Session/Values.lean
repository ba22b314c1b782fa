import TypedHeap.Proofs.Heap.Values
import TypedHeap.Proofs.Session.Layouts

/-!
# Values along a run

Operations copy values as bytes, from objects into fields and elements and back, shrink and move arrays and write
members of a union over each other. Heaps stay tidy all the while, so a value may be compared by its bytes and a
scalar may be read wherever it is.

Main results: `Session.Reachable.values_canonical`, `Session.Reachable.scalars_readable`.
-/

namespace TypedHeap

open Heap

namespace Session

variable {s t : Session}

theorem Reachable.tidy (hs : Reachable s) : s.heap.Tidy := hs.invariant tidy_fresh fun trail _ => trail.tidy

/-! ## Bytes -/

/-- In every heap that operations lead to, the bytes of values that belong to no leaf are zero, and so is the rest
of a slot behind the bits of an element. Two values of a type have equal bytes if and only if their leaves have. -/
theorem Reachable.values_canonical (hs : Reachable s) : s.heap.Canonical := hs.tidy.canonical

/-- Two tuples of the same two numbers. -/
def packed : Session :=
  start ⟨64, 4096⟩ .off
    |>.next (.tupleType [Builtin.int8, Builtin.int64])
    |>.next (.box .int8 5)
    |>.next (.box .int64 7)
    |>.next (.newRecord (tier 0) [object 16, object 32])
    |>.next (.newRecord (tier 0) [object 16, object 32])

/-- Their leaves are equal since their bytes are. -/
theorem values_canonical_packed :
    Reachable packed ∧
      packed.heap.payload (object 48) = .ok [5, 0, 0, 0, 0, 0, 0, 0, 7, 0, 0, 0, 0, 0, 0, 0] ∧
      packed.heap.payload (object 80) = .ok [5, 0, 0, 0, 0, 0, 0, 0, 7, 0, 0, 0, 0, 0, 0, 0] ∧
      ∀ off n leaf, packed.heap.registry.Leaf (tier 0) off n leaf →
        packed.heap.memory.window (48 + off) n = packed.heap.memory.window (80 + off) n := by
  have hs : Reachable packed :=
    (((((reachable_start _ _).next _ (allows_of_none rfl)).next _ (allows_of_none rfl)).next _
      (allows_of_none rfl)).next _ (allows_of_none rfl)).next _ (allows_of_none rfl)
  have hleft : packed.heap.payload (object 48) = .ok [5, 0, 0, 0, 0, 0, 0, 0, 7, 0, 0, 0, 0, 0, 0, 0] := by
    decide +kernel
  have hright : packed.heap.payload (object 80) = .ok [5, 0, 0, 0, 0, 0, 0, 0, 7, 0, 0, 0, 0, 0, 0, 0] := by
    decide +kernel
  have htype : packed.heap.typeOf (object 48) = .ok (tier 0) ∧ packed.heap.typeOf (object 80) = .ok (tier 0) := by
    decide +kernel
  have htuple : (packed.heap.types.descriptor (tier 0)).map (fun d => d.kind.isVariableSize) = .ok false := by
    decide +kernel
  obtain ⟨d, -, hd, -⟩ := hs.sound.heap.exists_shaped htype.1
  rw [hd] at htuple
  have hfixed : d.kind.isVariableSize = false := Except.ok.inj htuple
  have hcanonical := hs.values_canonical
  have hat : packed.heap.ValueAt (tier 0) 48 ∧ packed.heap.ValueAt (tier 0) 80 :=
    ⟨.object htype.1 hd hfixed, .object htype.2 hd hfixed⟩
  obtain ⟨l, hl, -⟩ := hcanonical.sized hat.1
  have hwindows : packed.heap.memory.window 48 l.size = packed.heap.memory.window 80 l.size := by
    have hleft' := hcanonical.payload htype.1 hd hfixed hl
    have hright' := hcanonical.payload htype.2 hd hfixed hl
    rw [hleft] at hleft'
    rw [hright] at hright'
    exact Except.ok.inj (hleft'.symm.trans hright')
  exact ⟨hs, hleft, hright, (hcanonical.equal_iff hat.1 hat.2 hl).1 hwindows⟩

/-! ## Scalars -/

/-- In every heap that operations lead to, the bytes of a value with the type of a scalar stand for a scalar, except
that zeros stand for no type. So reading never fails for the other kinds. -/
theorem Reachable.scalars_readable (hs : Reachable s) :
    (∀ (k : ScalarKind) p, s.heap.ValueAt k.type p →
      ((∃ x, k.decode s.heap.symbols (s.heap.memory.window p k.size) = .ok x) ↔
        (k = .dataType → s.heap.memory.window p k.size ≠ List.replicate k.size 0))) ∧
    ∀ k, k ≠ .dataType → s.heap.Readable k :=
  ⟨fun _ _ hv => hv.decode_iff hs.tidy, fun _ hk => hs.tidy.readable hk⟩

/-- A tuple into which nothing was put. -/
def blank : Session :=
  start ⟨64, 4096⟩ .off
    |>.next (.tupleType [Builtin.bool, Builtin.char, Builtin.symbol, Builtin.dataType])
    |>.next (.newRecordUninit (tier 0))

theorem scalars_readable_blank :
    Reachable blank ∧
      ((Record.read (object 16) 2).runOn blank.heap).1 = .ok (.bits Builtin.symbol [0, 0, 0, 0]) ∧
      (∃ x, ((Record.readScalar .symbol (object 16) 2).runOn blank.heap).1 = .ok x) ∧
      ((Record.read (object 16) 3).runOn blank.heap).1 = .ok (.bits Builtin.dataType [0, 0, 0, 0]) ∧
      ((Record.readScalar .dataType (object 16) 3).runOn blank.heap).1 =
        .error (.typeMismatch "DataType" "null type reference") := by
  have hs : Reachable blank := ((reachable_start _ _).next _ (allows_of_none rfl)).next _ (allows_of_none rfl)
  have hread : ((Record.read (object 16) 2).runOn blank.heap).1 = .ok (.bits Builtin.symbol [0, 0, 0, 0]) := by
    decide +kernel
  exact ⟨hs, hread, (hs.scalars_readable.2 .symbol (by decide)).field hread .bits, by decide +kernel, by decide +kernel⟩

end Session

end TypedHeap
