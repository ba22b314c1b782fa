import TypedHeap.Proofs.Array.Boxing
import TypedHeap.Proofs.Session.Fields
import TypedHeap.Proofs.Session.RoundTrip
import TypedHeap.Proofs.Session.Values

/-!
# Shortcuts around boxes

Who knows that an element or a field is a scalar need not make a box to store it or to read it. That is a matter
of speed only: whoever takes the long way gets the same answers and the same errors, and what is stored is the same.

* `Session.Shortcuts`: for each shortcut, the long way that it stands for.

Main result: `Session.Reachable.shortcuts`.
-/

namespace TypedHeap.Session

open Heap

variable {α : Type} {s : Session}

/-- What an operation would answer next. -/
def answer (s : Session) (o : Operation α) : Except Error α := (o.perform.runOn s.heap).1

/-- Operations on scalars do what the operations on boxes do. -/
structure Shortcuts (s : Session) : Prop where
  /-- A scalar is put in a box if there is room for it, and a key for it if it is a symbol. -/
  boxed : ∀ k x, s.heap.Affords (Box.demand k x) → ∃ b, s.answer (.box k x) = .ok b
  /-- An array takes a scalar as it takes a box with it. Afterwards whatever is read from arrays is the same. The box
  is put where there was no object, so no array that there was is excluded. -/
  elementWrites : ∀ k x b a i, s.answer (.box k x) = .ok b → a ≠ b →
    s.answer (.elementWriteScalar a i k x) = (s.next (.box k x)).answer (.elementWrite a i b) ∧
    ∀ m c j, c ≠ b → (s.next (.elementWriteScalar a i k x)).answer (.elementScalar m c j) =
      ((s.next (.box k x)).next (.elementWrite a i b)).answer (.elementScalar m c j)
  /-- An element is read as a scalar, or its value is read, if there is room for that. -/
  elementReads : ∀ k a i,
    (∀ t bs, s.answer (.elementRead a i) = .ok (.bits t bs) → s.heap.nextStart + bs.length ≤ s.heap.limit) →
    s.answer (.elementScalar k a i) = Box.unboxed k (Operation.elementValue a i).perform s.heap
  /-- So is a field. -/
  fieldReads : ∀ k v i,
    (∀ t bs, s.answer (.fieldRead v i) = .ok (.bits t bs) → s.heap.nextStart + bs.length ≤ s.heap.limit) →
    s.answer (.fieldScalar k v i) = Box.unboxed k (Operation.fieldValue v i).perform s.heap
  /-- An inline field takes a scalar as it takes a box with it. Afterwards the objects that there were have the same
  bytes. -/
  fieldWrites : ∀ k x b v i e, s.answer (.box k x) = .ok b → s.fieldOf v i = .ok e → e.isInline = true →
    s.answer (.fieldWriteScalar v i k x) = (s.next (.box k x)).answer (.fieldWrite v i b) ∧
    ∀ w, s.heap.Live w → (s.next (.fieldWriteScalar v i k x)).heap.payload w =
      ((s.next (.box k x)).next (.fieldWrite v i b)).heap.payload w

/-- A box was made. -/
theorem next_box {k : ScalarKind} {x : k.Carrier} {b : Value} (hbox : s.answer (.box k x) = .ok b) :
    (Box.new k x).runOn s.heap = (.ok b, (s.next (.box k x)).heap) := by
  rw [next_heap]
  exact Prod.ext hbox rfl

/-- In every heap that operations lead to, the shortcuts come to the same as the long ways. -/
theorem Reachable.shortcuts (hs : Reachable s) : s.Shortcuts where
  boxed k x hroom := by
    obtain ⟨b, h, hrun, -⟩ := Box.new_makes hs.orderly k x hroom
    exact ⟨b, congrArg Prod.fst hrun⟩
  elementWrites k x b a i hbox hne := by
    have hsame := ArrayObject.setScalar_beside hs.orderly (next_box hbox) hne i
    have hdirect := hs.next (.elementWriteScalar a i k x) (allows_of_none rfl)
    have hlong := (hs.next (.box k x) (allows_of_none rfl)).next (.elementWrite a i b) (allows_of_none rfl)
    refine ⟨hsame.outcome, fun m c j hc => ?_⟩
    have hbeside : Beside b (s.next (.elementWriteScalar a i k x)).heap
        ((s.next (.box k x)).next (.elementWrite a i b)).heap := by
      rw [next_heap, next_heap]
      exact hsame.heaps
    exact (hbeside.getScalar_eq hdirect.orderly hdirect.tidy hlong.sound.heap hc m j).symm
  elementReads k a i hroom := ArrayObject.getScalar_eq_unboxed hs.orderly k a i hroom
  fieldReads k v i hroom := Record.readScalar_eq_unboxed hs.orderly k v i hroom
  fieldWrites k x b v i e hbox hfield hin := by
    have hboxed := hs.next (.box k x) (allows_of_none rfl)
    obtain ⟨bs, hb⟩ := Box.boxed_of_run hs.sound.heap (next_box hbox)
    have hsame := Record.writeScalar_beside hs.orderly hboxed.belowAbstract hb hfield hin
    have hdirect := hs.next (.fieldWriteScalar v i k x) (allows_of_none rfl)
    have hlong := hboxed.next (.fieldWrite v i b) (allows_of_none rfl)
    refine ⟨hsame.outcome, fun w hw => ?_⟩
    have hbeside : Beside b (s.next (.fieldWriteScalar v i k x)).heap
        ((s.next (.box k x)).next (.fieldWrite v i b)).heap := by
      rw [next_heap, next_heap]
      exact hsame.heaps
    have hlive := (hs.sound.keeps_next (.fieldWriteScalar v i k x) (allows_of_none rfl)).live hw
    exact (hdirect.sound.heap.payload_kept hlong.sound.heap hbeside.kept hlive fun _ => id).symm

/-- A vector of elements of two sizes, the second of which is a number of two bytes. -/
def sized : Session :=
  start ⟨64, 4096⟩ .off
    |>.next (.union [Builtin.int16, Builtin.bool])
    |>.next (.newVector (tier 0) 2)
    |>.next (.elementWriteScalar (object 48) 1 .int16 300)

/-- The number makes place for a smaller scalar, with a box or without. -/
theorem shortcuts_sized :
    Reachable sized ∧ sized.Shortcuts ∧
      sized.answer (.elementScalar .int16 (object 48) 1) = .ok 300 ∧
      sized.answer (.box .bool true) = .ok (object 112) ∧
      sized.answer (.elementWriteScalar (object 48) 1 .bool true) = .ok () ∧
      (sized.next (.box .bool true)).answer (.elementWrite (object 48) 1 (object 112)) = .ok () ∧
      ((sized.next (.box .bool true)).next (.elementWrite (object 48) 1 (object 112))).answer
        (.elementScalar .bool (object 48) 1) = .ok true := by
  have hs : Reachable sized :=
    (((reachable_start _ _).next _ (allows_of_none rfl)).next _ (allows_of_none rfl)).next _ (allows_of_none rfl)
  have hbox : sized.answer (.box .bool true) = .ok (object 112) := by decide +kernel
  have hwrite : sized.answer (.elementWriteScalar (object 48) 1 .bool true) = .ok () := by decide +kernel
  have hread : (sized.next (.elementWriteScalar (object 48) 1 .bool true)).answer
    (.elementScalar .bool (object 48) 1) = .ok true := by decide +kernel
  have hshort := hs.shortcuts
  obtain ⟨hsame, hreads⟩ := hshort.elementWrites .bool true (object 112) (object 48) 1 hbox (by decide)
  refine ⟨hs, hshort, by decide +kernel, hbox, hwrite, hsame.symm.trans hwrite, ?_⟩
  exact (hreads .bool (object 48) 1 (by decide)).symm.trans hread

/-- A reference may be made up before there is anything where it points to. Where the box is put, the array of a
shortcut would be the box itself, and the long way fails for another reason. -/
theorem shortcut_differs_forged :
    Reachable (start ⟨64, 4096⟩ .off) ∧
      (start ⟨64, 4096⟩ .off).answer (.box .int64 5) = .ok (object 16) ∧
      (start ⟨64, 4096⟩ .off).answer (.elementWriteScalar (object 16) 0 .int64 5) =
        .error (.invalidTag 16 .notAnObject) ∧
      ((start ⟨64, 4096⟩ .off).next (.box .int64 5)).answer (.elementWrite (object 16) 0 (object 16)) =
        .error (.typeMismatch "Array" "Int64") :=
  ⟨reachable_start _ _, by decide +kernel, by decide +kernel, by decide +kernel⟩

end TypedHeap.Session
