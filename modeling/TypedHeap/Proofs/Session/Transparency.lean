import TypedHeap.Proofs.Node.Blind
import TypedHeap.Proofs.Session.Safety

/-!
# The collector is transparent to the mutator

Two callers ask for the same operations, one after the other. In between, the collector sets flags, queues and
takes roots as it likes, for either of them or for both, and their heaps may have different barriers. Neither
caller can tell.

* `Operation.items`: what an operation puts into simple vectors, which nobody checks.
* `Operation.perform_blind`: no operation but the collector's sees the collector's state.
* `Question.ask_eq`: no question sees it that is not about flags.
* `Session.Abreast`: two sessions after the same operations of a mutator.

Main result: `Session.Abreast.transparent`.
-/

namespace TypedHeap

open Heap
open SimpleVector (Builder)

variable {α : Type} {B : Value → Prop} {h k : Heap}

/-! ## Operations -/

namespace Operation

/-- The values that an operation puts into a simple vector. -/
def items : Operation α → List Value
  | newSimpleVector items => items
  | builderSet _ _ x => [x]
  | _ => []

theorem perform_blind (ho : InOrder B h) (o : Operation α) (hb : ∀ b, o.builder? = some b → b.Holds h)
    (hmutator : o.isForCollector = false) (hitems : ∀ x ∈ o.items, h.Live x) : Blind o.perform h := by
  have hs := ho.sound
  cases o with
  | declare d => exact onRegistry_blind _
  | declareOrFind d => exact onRegistry_blind _
  | define d => exact onRegistry_blind _
  | apply name ps => exact onRegistry_blind _
  | union members => exact onRegistry_blind _
  | tupleType fields => exact onRegistry_blind _
  | arrayType elem ndims => exact onRegistry_blind _
  | registerNodes => exact onRegistry_blind _
  | layout t => exact onRegistry_blind _
  | sizeOf t => exact onRegistry_blind _
  | alignmentOf t => exact onRegistry_blind _
  | isInline t => exact onRegistry_blind _
  | typeFieldCount t => exact onRegistry_blind _
  | typeField t i => exact onRegistry_blind _
  | typeFieldIndex t name => exact onRegistry_blind _
  | reportBuiltins => exact onRegistry_blind _
  | reportLayout name => exact onRegistry_blind _
  | intern s => exact onSymbols_blind _
  | allocate t extra => exact allocate_blind t extra
  | box kind x => exact Box.new_blind kind x
  | boxType t => exact Box.newType_blind t
  | newString s => exact Text.ofBytes_blind _
  | newStringOfBytes bs => exact Text.ofBytes_blind bs
  | newBuffer length => exact allocate_blind _ length
  | newSimpleVector items => exact SimpleVector.new_blind hs hitems
  | simpleVectorOfParams ps => exact SimpleVector.ofParams_blind ho ps
  | build length => exact SimpleVector.build_blind length
  | builderSet b i x => exact b.set_blind (hb b rfl) i (hitems x List.mem_cons_self)
  | builderTruncate b length => exact b.truncate_blind length
  | publish b => exact .pure
  | newArray elem dims => exact ArrayObject.new_blind elem _
  | newVector elem length => exact ArrayObject.new_blind elem _
  | elementRead a i => exact ArrayObject.get_blind hs a i
  | elementValue a i => exact ArrayObject.getValue_blind ho a i
  | elementScalar kind a i => exact ArrayObject.getScalar_blind hs kind a i
  | elementWrite a i x => exact ArrayObject.set_blind ho a i x
  | elementWriteScalar a i kind x => exact ArrayObject.setScalar_blind ho a i kind x
  | resize a n => exact ArrayObject.resize_blind ho a n.toNat_lt
  | push a x => exact ArrayObject.push_blind ho a x
  | reshape a dims => exact ArrayObject.reshape_blind hs a _
  | newRecord t args => exact Record.new_blind ho t args
  | newRecordUninit t => exact Record.newUninit_blind t
  | fieldCount v => exact Record.fieldCount_blind v
  | fieldRead v i => exact Record.read_blind hs v i
  | fieldReadByName v name => exact Record.readByName_blind hs v name
  | fieldIsDefined v i => exact Record.isDefined_blind hs v i
  | fieldValue v i => exact Record.readValue_blind hs v i
  | fieldScalar kind v i => exact Record.readScalar_blind hs kind v i
  | fieldWrite v i x => exact Record.write_blind ho v i x
  | fieldWriteScalar v i kind x => exact Record.writeScalar_blind v i kind x
  | newModule name parent => exact ModuleObject.new_blind ho name parent
  | moduleName m => exact ModuleObject.name_blind hs m
  | moduleParent m => exact ModuleObject.parent_blind hs m
  | modulePath m => exact ModuleObject.path_blind hs m
  | encode ts n => exact Node.encode_blind ho ts n
  | decode ts v => exact Nodes.decode_blind ho ts v
  | head ts e => exact Nodes.head_blind hs ts e
  | setHead ts e s => exact Nodes.setHead_blind ts e s
  | argumentCount ts e => exact Nodes.argumentCount_blind ho ts e
  | argument ts e i => exact Nodes.argument_blind ho ts e i
  | setArgument ts e i x => exact Nodes.setArgument_blind ho ts e i x
  | pushArgument ts e x => exact Nodes.pushArgument_blind ho ts e x
  | phiOperands ts phi => exact Nodes.phiOperands_blind ho ts phi
  | phicValues ts phic => exact Nodes.phicValues_blind ho ts phic
  | walk ts root => exact Nodes.walk_blind ho ts root
  | visit ts root => exact Nodes.visit_blind ho ts root
  | _ => cases hmutator

/-- Of the collector's operations nothing can be seen. -/
theorem perform_onlyFlags {o : Operation α} (hcollector : o.isForCollector = true) : OnlyFlags o.perform := by
  cases o with
  | setGcBits v g => exact onlyFlags_setGcBits v g
  | writeBarrier parent child => exact onlyFlags_writeBarrier parent child
  | queueRoot v => exact fun h ha => alike_withBarrier ha _ h.stats.barrierHits
  | drainRoots => exact onlyFlags_drainRoots
  | takeRemembered => exact onlyFlags_takeRemembered
  | _ => cases hcollector

end Operation

/-! ## Questions -/

namespace Question

/-- Questions that are about the flags of the collector. -/
def isForCollector : Question α → Bool
  | header _ | gcBits _ => true
  | _ => false

theorem ask_eq (hk : Alike h k) (hs : h.Sound) {q : Question α} (hmutator : q.isForCollector = false) :
    q.ask k = q.ask h := by
  cases q with
  | objectSize v => exact hk.objectSize_eq v
  | payload v => exact hk.payload_eq v
  | typeOf v => exact hk.typeOf_eq v
  | descriptor v => exact hk.descriptor_eq v
  | isOfType v t => exact hk.isOfType_eq v t
  | isa v t => exact hk.isa_eq v t
  | unbox kind v => exact Box.read_eq hk hs kind v
  | unboxType v => exact Box.read_eq hk hs .dataType v
  | scalarOf kind d => exact Datum.read_eq hk hs kind d
  | stringLength v => exact Text.length_eq hk hs v
  | stringData v => exact Text.data_eq hk hs v
  | stringText v => exact Text.read_eq hk hs v
  | bufferLength v => exact Buffer.length_eq hk hs v
  | bufferData v => exact Buffer.data_eq hk hs v
  | simpleVectorLength v => exact SimpleVector.length_eq hk hs v
  | simpleVectorItem v i => exact SimpleVector.get_eq hk hs v i
  | arrayLength a => exact ArrayObject.length_eq hk hs a
  | arrayRank a => exact ArrayObject.ndims_eq hk hs a
  | arrayDim a i => exact ArrayObject.dim_eq hk hs a i
  | arrayDims a => exact ArrayObject.dims_eq hk hs a
  | elementType a => exact ArrayObject.ask_eq hk hs a
  | storage a => exact ArrayObject.ask_eq hk hs a
  | isShared a => exact ArrayObject.ask_eq hk hs a
  | capacity a => exact ArrayObject.ask_eq hk hs a
  | slotSize a => exact ArrayObject.ask_eq hk hs a
  | owner a => exact ArrayObject.owner_eq hk hs a
  | linearIndex a position => exact ArrayObject.linearIndex_eq hk hs a position
  | arrayData a => exact ArrayObject.data_eq hk hs a
  | isCurrent a p => exact ArrayObject.ask_eq hk hs a
  | kindOf ts v => exact Nodes.kindOf_eq hk ts v
  | _ => cases hmutator

end Question

/-! ## Sessions -/

namespace Session

variable {s t : Session}

/-- Two sessions with new heaps, whatever their barriers, in which callers asked for the same operations and put
nothing but objects into simple vectors. Before, between and after these operations the collector did what it
liked in either session. -/
inductive Abreast : Session → Session → Prop
  | start (config : HeapConfig) (b b' : Barrier) : Abreast (start config b) (start config b')
  | both {α : Type} {s t : Session} (before : Abreast s t) (o : Operation α) (allowed : s.Allows o)
      (mutator : o.isForCollector = false) (items : ∀ x ∈ o.items, s.heap.Live x) : Abreast (s.next o) (t.next o)
  | left {α : Type} {s t : Session} (before : Abreast s t) (o : Operation α) (collector : o.isForCollector = true) :
      Abreast (s.next o) t
  | right {α : Type} {s t : Session} (before : Abreast s t) (o : Operation α) (collector : o.isForCollector = true) :
      Abreast s (t.next o)

/-- Two sessions whose heaps are alike, with the same in hand. -/
structure Twins (s t : Session) : Prop where
  heap : Alike s.heap t.heap
  builders : t.builders = s.builders
  arrays : t.arrays = s.arrays

theorem Twins.symm (h : Twins s t) : Twins t s := ⟨h.heap.symm, h.builders.symm, h.arrays.symm⟩

theorem Twins.trans {u : Session} (h : Twins s t) (h' : Twins t u) : Twins s u :=
  ⟨h.heap.trans h'.heap, h'.builders.trans h.builders, h'.arrays.trans h.arrays⟩

/-- The same answer is received in the same way. -/
theorem Twins.receive (h : Twins s t) (o : Operation α) (a : α) : Twins (s.receive o a) (t.receive o a) := by
  obtain ⟨hheap, hbuilders, harrays⟩ := h
  cases o with
  | build length => exact ⟨hheap, congrArg (a :: ·) hbuilders, harrays⟩
  | builderTruncate b length => exact ⟨hheap, congrArg (fun bs : List Builder => a :: bs.erase b) hbuilders, harrays⟩
  | publish b => exact ⟨hheap, congrArg (·.erase b) hbuilders, harrays⟩
  | newArray elem dims => exact ⟨hheap, hbuilders, congrArg (a :: ·) harrays⟩
  | newVector elem length => exact ⟨hheap, hbuilders, congrArg (a :: ·) harrays⟩
  | reshape v dims => exact ⟨hheap, hbuilders, congrArg (a :: ·) harrays⟩
  | _ => exact ⟨hheap, hbuilders, harrays⟩

theorem Twins.next {o : Operation α} (h : Twins s t) (ho : Blind o.perform s.heap) :
    Twins (s.next o) (t.next o) := by
  obtain ⟨hsame, hheap⟩ := ho t.heap h.heap
  rcases hrun : o.perform.runOn s.heap with ⟨r, h'⟩
  rcases hrun' : o.perform.runOn t.heap with ⟨r', k'⟩
  rw [hrun, hrun'] at hsame hheap
  obtain rfl : r' = r := hsame
  cases r' with
  | error e =>
    rw [next_error hrun, next_error hrun']
    exact ⟨hheap, h.builders, h.arrays⟩
  | ok a =>
    rw [next_ok hrun, next_ok hrun']
    have hgot : Twins { s with heap := h' } { t with heap := k' } := ⟨hheap, h.builders, h.arrays⟩
    exact hgot.receive o a

/-- An operation of the collector gives a caller nothing. -/
theorem twins_next (ha : s.heap.Arena) {o : Operation α} (hcollector : o.isForCollector = true) :
    Twins s (s.next o) := by
  have hheap := Operation.perform_onlyFlags hcollector s.heap ha
  have hreceive (s : Session) (a : α) : s.receive o a = s := by
    cases o <;> first | rfl | cases hcollector
  rcases hrun : o.perform.runOn s.heap with ⟨r, h'⟩
  rw [hrun] at hheap
  cases r with
  | error e =>
    rw [next_error hrun]
    exact ⟨hheap, rfl, rfl⟩
  | ok a =>
    rw [next_ok hrun, hreceive]
    exact ⟨hheap, rfl, rfl⟩

/-- By induction on the runs. The left one is enough to know that its heap is in order. -/
theorem Abreast.twins (h : Abreast s t) : Reachable s ∧ Twins s t := by
  have allows {α : Type} {s : Session} {o : Operation α} (hcollector : o.isForCollector = true) : s.Allows o := by
    cases o <;> first | exact allows_of_none rfl | cases hcollector
  induction h with
  | start config b b' =>
    have ha : (Session.start config b).heap.Arena := (start_sound config b).heap.arena
    have hheap : Alike (Session.start config b).heap (Session.start config b').heap :=
      ⟨ha, rfl, rfl, rfl, rfl, rfl, rfl, rfl, rfl, rfl, fun _ => rfl, fun _ _ => rfl⟩
    exact ⟨reachable_start config b, hheap, rfl, rfl⟩
  | both _ o allowed mutator items ih =>
    obtain ⟨hs, htwins⟩ := ih
    have hblind := o.perform_blind hs.inOrder (fun b hb => hs.sound.builders b (allowed b hb)) mutator items
    exact ⟨hs.next o allowed, htwins.next hblind⟩
  | left _ o collector ih =>
    obtain ⟨hs, htwins⟩ := ih
    exact ⟨hs.next o (allows collector), (twins_next hs.sound.heap.arena collector).symm.trans htwins⟩
  | right _ o collector ih =>
    obtain ⟨hs, htwins⟩ := ih
    exact ⟨hs, htwins.trans (twins_next htwins.heap.arena_right collector)⟩

/-- Whatever the collector did in two sessions, and whether their barriers remember anything or not:

* the next operation of a caller has the same answer in both, or fails with the same error;
* so has each question that is not about flags, and each payload has the same bytes;
* callers have the same builders and arrays in hand.

The heaps differ in flags, in the queue and in what the barrier counts, and in nothing else. -/
theorem Abreast.transparent (h : Abreast s t) :
    (∀ {β : Type} (o : Operation β), s.Allows o → o.isForCollector = false → (∀ x ∈ o.items, s.heap.Live x) →
      (o.perform.runOn t.heap).1 = (o.perform.runOn s.heap).1) ∧
    (∀ {β : Type} (q : Question β), q.isForCollector = false → q.ask t.heap = q.ask s.heap) ∧
    t.builders = s.builders ∧ t.arrays = s.arrays ∧ Alike s.heap t.heap := by
  obtain ⟨hs, htwins⟩ := h.twins
  have hsound := hs.sound
  refine ⟨fun o allowed mutator items => ?_, fun q => Question.ask_eq htwins.heap hsound.heap, htwins.builders,
    htwins.arrays, htwins.heap⟩
  have hblind := o.perform_blind hs.inOrder (fun b hb => hsound.builders b (allowed b hb)) mutator items
  exact (hblind t.heap htwins.heap).1

/-- A text goes into a vector, twice. -/
def unwatched : Session :=
  start ⟨64, 4096⟩ .off
    |>.next (.newString "text")
    |>.next (.newVector Builtin.any 1)
    |>.next (.elementWrite (object 80) 0 (object 16))
    |>.next (.elementWrite (object 80) 0 (object 16))

/-- So it does here, but the buffer of the vector is old to a collector, which takes the roots in between. -/
def watched : Session :=
  start ⟨64, 4096⟩ (.remembering [])
    |>.next (.newString "text")
    |>.next (.newVector Builtin.any 1)
    |>.next (.setGcBits (object 48) ⟨false, true, false, false⟩)
    |>.next (.elementWrite (object 80) 0 (object 16))
    |>.next .takeRemembered
    |>.next (.elementWrite (object 80) 0 (object 16))

theorem abreast_watched : Abreast unwatched watched := by
  have h₁ := (Abreast.start ⟨64, 4096⟩ .off (.remembering [])).both (.newString "text") (by nofun) rfl nofun
  have h₂ := h₁.both (.newVector Builtin.any 1) (by nofun) rfl nofun
  have h₃ := h₂.right (.setGcBits (object 48) ⟨false, true, false, false⟩) rfl
  have h₄ := h₃.both (.elementWrite (object 80) 0 (object 16)) (by nofun) rfl nofun
  have h₅ := h₄.right .takeRemembered rfl
  exact h₅.both (.elementWrite (object 80) 0 (object 16)) (by nofun) rfl nofun

theorem transparent_watched :
    Abreast unwatched watched ∧
      unwatched.heap.gcBits (object 48) = .ok ⟨false, false, false, false⟩ ∧
      watched.heap.gcBits (object 48) = .ok ⟨false, true, false, true⟩ ∧
      watched.heap.barrier.roots = [object 48] ∧ watched.heap.stats.barrierHits = 2 ∧
      ((ArrayObject.get (object 80) 0).runOn watched.heap).1 = .ok (.ref (object 16)) ∧
      watched.heap.payload (object 48) = unwatched.heap.payload (object 48) := by
  have hunwatched : unwatched.heap.gcBits (object 48) = .ok ⟨false, false, false, false⟩ ∧
      ((ArrayObject.get (object 80) 0).runOn unwatched.heap).1 = .ok (.ref (object 16)) := by decide +kernel
  have hwatched : watched.heap.gcBits (object 48) = .ok ⟨false, true, false, true⟩ ∧
      watched.heap.barrier.roots = [object 48] ∧ watched.heap.stats.barrierHits = 2 := by decide +kernel
  obtain ⟨hperform, hask, -⟩ := abreast_watched.transparent
  have hread := hperform (.elementRead (object 80) 0) (allows_of_none rfl) rfl nofun
  exact ⟨abreast_watched, hunwatched.1, hwatched.1, hwatched.2.1, hwatched.2.2, hread.trans hunwatched.2,
    hask (.payload (object 48)) rfl⟩

end Session

end TypedHeap
