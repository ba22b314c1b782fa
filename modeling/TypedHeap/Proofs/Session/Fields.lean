import TypedHeap.Proofs.Object.Fields
import TypedHeap.Proofs.Session.Layouts
import TypedHeap.Proofs.Session.Unions

/-!
# Fields along a run

Structs and tuples are made from one object for each field. A field gives its object back, or the bits of it if
they lie in place, and so it does after it was changed. Nobody notices the change in another field, however the
layout puts the two next to each other.

* `Session.TakesFields`: what is made, what may be changed, and what is read afterwards.

Main result: `Session.Reachable.fields_taken`.
-/

namespace TypedHeap.Session

open Heap

variable {s : Session}

/-- What a field of an object is declared as, and where it lies. -/
def fieldOf (s : Session) (v : Value) (i : Nat) : Except Error FieldLayout :=
  ((Record.fieldLayout v i).runOn s.heap).1

/-- Each field takes the objects of types below its own, and reads as what it took. -/
structure TakesFields (s : Session) : Prop where
  /-- An object is made from as many objects as its type has fields, each of a type below that of its field. -/
  made : ∀ t d l args, s.heap.types.descriptor t = .ok d → d.kind = .struct ∨ d.kind = .tuple →
    ((Operation.layout t).perform.runOn s.heap).1 = .ok l →
    List.Forall₂ (fun e x => s.heap.isa x e.type = .ok true) l.fields args →
    s.heap.nextStart + l.size ≤ s.heap.limit →
    ∃ v h, (Operation.newRecord t args).perform.runOn s.heap = (.ok v, h) ∧ ¬s.heap.Live v ∧ h.typeOf v = .ok t ∧
      ∀ i e x, l.fields[i]? = some e → args[i]? = some x →
        ∃ c, Record.stored s.heap e x = .ok c ∧ (Operation.fieldRead v i).perform.runOn h = (.ok c, h)
  /-- That fails only for want of room. -/
  full : ∀ t d l args, s.heap.types.descriptor t = .ok d → d.kind = .struct ∨ d.kind = .tuple →
    ((Operation.layout t).perform.runOn s.heap).1 = .ok l →
    List.Forall₂ (fun e x => s.heap.isa x e.type = .ok true) l.fields args →
    s.heap.limit < s.heap.nextStart + l.size →
    ∃ h, (Operation.newRecord t args).perform.runOn s.heap =
      (.error (.outOfMemory (min (l.size + headerSize) maxWord) s.heap.limit), h)
  /-- The fields of a mutable object take the same objects later on. Where modules lie is checked as well. -/
  accepts : ∀ v t i x, s.heap.typeOf v = .ok t → s.heap.registry.isMutable t = .ok true →
    t ≠ Builtin.moduleType ∨ i ≠ ModuleObject.parentField →
    (((Operation.fieldWrite v i x).perform.runOn s.heap).1 = .ok () ↔
      ∃ e, s.fieldOf v i = .ok e ∧ s.heap.isa x e.type = .ok true)
  /-- Such a field reads as what it took, and the others read as before. -/
  reads : ∀ v t i x h, s.heap.typeOf v = .ok t → s.heap.registry.isMutable t = .ok true →
    t ≠ Builtin.moduleType ∨ i ≠ ModuleObject.parentField →
    (Operation.fieldWrite v i x).perform.runOn s.heap = (.ok (), h) →
    (∃ e c, s.fieldOf v i = .ok e ∧ Record.stored s.heap e x = .ok c ∧
      (Operation.fieldRead v i).perform.runOn h = (.ok c, h)) ∧
    ∀ j, j ≠ i → ((Operation.fieldRead v j).perform.runOn h).1 = ((Operation.fieldRead v j).perform.runOn s.heap).1
  /-- Immutable objects keep their fields. At most a layout is looked at that nobody had asked for before, which
  objects without fields have. -/
  refuses : ∀ v t i x, s.heap.typeOf v = .ok t → s.heap.registry.isMutable t = .ok false →
    ∃ err h, (Operation.fieldWrite v i x).perform.runOn s.heap = (.error err, h) ∧ s.heap.Learns h ∧
      ∀ d, s.heap.types.descriptor t = .ok d → d.kind = .struct ∨ d.kind = .tuple → h = s.heap

/-- In every heap that operations lead to, fields take what is below their types and give it back. -/
theorem Reachable.fields_taken (hs : Reachable s) : s.TakesFields := by
  have hheap := hs.sound.heap
  have hbelow : s.heap.types.BelowAbstract := hs.belowAbstract
  refine ⟨fun t d l args hd hkind hl hargs hroom => Record.new_yields hheap hbelow hd hkind hl hargs hroom,
    fun t d l args hd hkind hl hargs hfull => ?_,
    fun v t i x ht hmutable hfree => Record.write_succeeds_iff hheap hbelow ht hmutable hfree,
    fun v t i x h ht hmutable hfree hrun => Record.write_reads hheap hbelow ht hmutable hfree hrun,
    fun v t i x ht hmutable => ?_⟩
  · obtain ⟨h, -, hrun⟩ := Record.new_full hheap hd hkind hl hargs hfull
    exact ⟨h, hrun⟩
  · obtain ⟨err, h, hrun, hlearns, hsame⟩ := Record.write_refuses (x := x) (i := i) hheap ht hmutable
    refine ⟨err, h, hrun, hlearns, fun d hd hkind => hsame d hd ?_⟩
    rcases hkind with hkind | hkind <;> rw [hkind] <;> rfl

/-- A mutable struct that keeps a number in place and refers to anything. -/
def cell : Declaration where
  name := "Cell"
  kind := .struct
  isMutable := true
  fields := [("number", .type Builtin.int8), ("any", .type Builtin.any)]

/-- Two numbers, and such a struct, which took the first one twice. -/
def celled : Session :=
  start ⟨64, 4096⟩ .off
    |>.next (.define cell)
    |>.next (.box .int8 5)
    |>.next (.box .int8 (-1))
    |>.next (.newRecord (tier 0) [object 16, object 16])

/-- It takes the other number in place of the first one, and the reference behind it stays. -/
theorem fields_taken_celled :
    Reachable celled ∧ celled.TakesFields ∧
      ((Operation.fieldRead (object 48) 1).perform.runOn celled.heap).1 = .ok (.ref (object 16)) ∧
      ∃ h, (Operation.fieldWrite (object 48) 0 (object 32)).perform.runOn celled.heap = (.ok (), h) ∧
        (Operation.fieldRead (object 48) 0).perform.runOn h = (.ok (.bits Builtin.int8 [255]), h) ∧
        ((Operation.fieldRead (object 48) 1).perform.runOn h).1 = .ok (.ref (object 16)) := by
  have hs : Reachable celled :=
    ((((reachable_start _ _).next _ (allows_of_none rfl)).next _ (allows_of_none rfl)).next _
      (allows_of_none rfl)).next _ (allows_of_none rfl)
  have htakes := hs.fields_taken
  have hother : ((Operation.fieldRead (object 48) 1).perform.runOn celled.heap).1 = .ok (.ref (object 16)) := by
    decide +kernel
  have htype : celled.heap.typeOf (object 48) = .ok (tier 0) := by decide +kernel
  have hmutable : celled.heap.registry.isMutable (tier 0) = .ok true := by decide +kernel
  have hfield : celled.fieldOf (object 48) 0 = .ok ⟨"number", Builtin.int8, 0, 1, true⟩ := by decide +kernel
  have hisa : celled.heap.isa (object 32) Builtin.int8 = .ok true := by decide +kernel
  have hstored : Record.stored celled.heap ⟨"number", Builtin.int8, 0, 1, true⟩ (object 32) =
    .ok (.bits Builtin.int8 [255]) := by decide +kernel
  have hwritten := (htakes.accepts _ _ 0 _ htype hmutable (.inr (by decide))).2 ⟨_, hfield, hisa⟩
  refine ⟨hs, htakes, hother, ?_⟩
  rcases hrun : (Operation.fieldWrite (object 48) 0 (object 32)).perform.runOn celled.heap with ⟨r, h⟩
  rw [hrun] at hwritten
  cases hwritten
  obtain ⟨⟨e, c, he, hc, hread⟩, hothers⟩ := htakes.reads _ _ 0 _ h htype hmutable (.inr (by decide)) hrun
  cases hfield.symm.trans he
  cases hstored.symm.trans hc
  exact ⟨h, rfl, hread, (hothers 1 (by decide)).trans hother⟩

end TypedHeap.Session
