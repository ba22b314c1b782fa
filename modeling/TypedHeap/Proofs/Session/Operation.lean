import TypedHeap.Proofs.Node.Codec
import TypedHeap.Proofs.Node.Schema
import TypedHeap.Proofs.Object.SimpleVector

/-!
# The operations on a heap

Everything that a caller can ask for and that may leave the heap changed, with whatever arguments: a
value may be any offset, a type any number, an index any index. Questions that only look at the heap
are not listed.

* `Operation`: an operation with its arguments, by what it answers.
* `Operation.perform`: what it does to a heap.
* `Operation.Addresses`: the bytes of payloads that it is about.
* `Operation.isMutator`: operations that leave the collector's flags to the barrier.
* `Operation.isForCollector`: operations that are about flags in headers.
* `Operation.queuesByHand`, `Operation.takesRoots`: operations that fill and empty the queue of the barrier.

Main results: `Operation.stores_meets`, `mutator_meets` and `perform_meets`, by which an operation leads
along a path of steps and touches nothing that was there but what it addresses.
-/

namespace TypedHeap

open TypedHeap.Action (Meets)
open Heap

/-! ## Operations -/

/-- An operation that answers with an `α` if it succeeds. Sizes of arrays are numbers of 64 bits. -/
inductive Operation : Type → Type
  -- Types and their layouts
  | declare (d : Declaration) : Operation Family
  | declareOrFind (d : Declaration) : Operation Family
  | define (d : Declaration) : Operation TypeRef
  | apply (name : Symbol) (ps : Params) : Operation TypeRef
  | union (members : List TypeRef) : Operation TypeRef
  | tupleType (fields : List TypeRef) : Operation TypeRef
  | arrayType (elem : TypeRef) (ndims : Nat) : Operation TypeRef
  | registerNodes : Operation NodeTypes
  | layout (t : TypeRef) : Operation Layout
  | sizeOf (t : TypeRef) : Operation Nat
  | alignmentOf (t : TypeRef) : Operation Nat
  | isInline (t : TypeRef) : Operation Bool
  | typeFieldCount (t : TypeRef) : Operation Nat
  | typeField (t : TypeRef) (i : Nat) : Operation FieldLayout
  | typeFieldIndex (t : TypeRef) (name : Symbol) : Operation Nat
  | reportBuiltins : Operation String
  | reportLayout (name : String) : Operation String
  -- Symbols, objects as such, and the collector
  | intern (s : Symbol) : Operation Nat
  | allocate (t : TypeRef) (extra : Nat) : Operation Value
  | setGcBits (v : Value) (g : GcBits) : Operation Unit
  | writeBarrier (parent child : Value) : Operation Unit
  | queueRoot (v : Value) : Operation Unit
  | drainRoots : Operation (List Value)
  | takeRemembered : Operation (List Value)
  -- Boxes, strings and buffers
  | box (k : ScalarKind) (x : k.Carrier) : Operation Value
  | boxType (t : TypeRef) : Operation Value
  | newString (s : String) : Operation Value
  | newStringOfBytes (bs : List UInt8) : Operation Value
  | newBuffer (length : Nat) : Operation Value
  -- Simple vectors
  | newSimpleVector (items : List Value) : Operation Value
  | simpleVectorOfParams (ps : Params) : Operation Value
  | build (length : Nat) : Operation SimpleVector.Builder
  | builderSet (b : SimpleVector.Builder) (i : Nat) (x : Value) : Operation Unit
  | builderTruncate (b : SimpleVector.Builder) (length : Nat) : Operation SimpleVector.Builder
  | publish (b : SimpleVector.Builder) : Operation Value
  -- Arrays
  | newArray (elem : TypeRef) (dims : List UInt64) : Operation Value
  | newVector (elem : TypeRef) (length : UInt64) : Operation Value
  | elementRead (a : Value) (i : Nat) : Operation Datum
  | elementValue (a : Value) (i : Nat) : Operation Value
  | elementScalar (k : ScalarKind) (a : Value) (i : Nat) : Operation k.Carrier
  | elementWrite (a : Value) (i : Nat) (x : Value) : Operation Unit
  | elementWriteScalar (a : Value) (i : Nat) (k : ScalarKind) (x : k.Carrier) : Operation Unit
  | resize (a : Value) (n : UInt64) : Operation Unit
  | push (a : Value) (x : Value) : Operation Unit
  | reshape (a : Value) (dims : List UInt64) : Operation Value
  -- Objects with fields
  | newRecord (t : TypeRef) (args : List Value) : Operation Value
  | newRecordUninit (t : TypeRef) : Operation Value
  | fieldCount (v : Value) : Operation Nat
  | fieldRead (v : Value) (i : Nat) : Operation Datum
  | fieldReadByName (v : Value) (name : Symbol) : Operation Datum
  | fieldIsDefined (v : Value) (i : Nat) : Operation Bool
  | fieldValue (v : Value) (i : Nat) : Operation Value
  | fieldScalar (k : ScalarKind) (v : Value) (i : Nat) : Operation k.Carrier
  | fieldWrite (v : Value) (i : Nat) (x : Value) : Operation Unit
  | fieldWriteScalar (v : Value) (i : Nat) (k : ScalarKind) (x : k.Carrier) : Operation Unit
  | newModule (name : Symbol) (parent : Option Value) : Operation Value
  | moduleName (m : Value) : Operation Symbol
  | moduleParent (m : Value) : Operation Value
  | modulePath (m : Value) : Operation String
  -- Nodes
  | encode (ts : NodeTypes) (n : Node) : Operation Value
  | decode (ts : NodeTypes) (v : Value) : Operation Node
  | head (ts : NodeTypes) (e : Value) : Operation Symbol
  | setHead (ts : NodeTypes) (e : Value) (s : Symbol) : Operation Unit
  | argumentCount (ts : NodeTypes) (e : Value) : Operation Nat
  | argument (ts : NodeTypes) (e : Value) (i : Nat) : Operation Value
  | setArgument (ts : NodeTypes) (e : Value) (i : Nat) (x : Value) : Operation Unit
  | pushArgument (ts : NodeTypes) (e : Value) (x : Value) : Operation Unit
  | phiOperands (ts : NodeTypes) (phi : Value) : Operation (List (Int32 × Option Value))
  | phicValues (ts : NodeTypes) (phic : Value) : Operation (List (Option Value))
  | walk (ts : NodeTypes) (root : Value) : Operation Nodes.Walk
  | visit (ts : NodeTypes) (root : Value) : Operation (Nat × List Value)

namespace Operation

variable {α : Type}

/-- What an operation does. -/
def perform : Operation α → HeapM α
  | declare d => onTypes (TypeTable.declare d)
  | declareOrFind d => onTypes (TypeTable.declareOrFind d)
  | define d => onTypes (TypeTable.define d)
  | apply name ps => onTypes (TypeTable.apply name ps)
  | union members => onTypes (TypeTable.union members)
  | tupleType fields => onTypes (TypeTable.tupleType fields)
  | arrayType elem ndims => onTypes (TypeTable.arrayType elem ndims)
  | registerNodes => onTypes NodeTypes.register
  | layout t => Heap.layout t
  | sizeOf t => Heap.sizeOf t
  | alignmentOf t => onRegistry (Registry.alignmentOf t)
  | isInline t => Heap.isInline t
  | typeFieldCount t => onRegistry (Registry.fieldCount t)
  | typeField t i => onRegistry (Registry.field t i)
  | typeFieldIndex t name => onRegistry (Registry.fieldIndex t name)
  | reportBuiltins => onRegistry Report.builtins
  | reportLayout name => onRegistry (Report.layoutOf name)
  | intern s => onSymbols (SymbolTable.intern s)
  | allocate t extra => Heap.allocate t extra
  | setGcBits v g => Heap.setGcBits v g
  | writeBarrier parent child => Heap.writeBarrier parent child
  | queueRoot v => modify fun h => { h with barrier := h.barrier.queue v }
  | drainRoots => Heap.drainRoots
  | takeRemembered => Heap.takeRemembered
  | box k x => Box.new k x
  | boxType t => Box.newType t
  | newString s => Text.new s
  | newStringOfBytes bs => Text.ofBytes bs
  | newBuffer length => Buffer.new length
  | newSimpleVector items => SimpleVector.new items
  | simpleVectorOfParams ps => SimpleVector.ofParams ps
  | build length => SimpleVector.build length
  | builderSet b i x => b.set i x
  | builderTruncate b length => b.truncate length
  | publish b => return b.publish
  | newArray elem dims => ArrayObject.new elem (dims.map UInt64.toNat)
  | newVector elem length => ArrayObject.newVector elem length.toNat
  | elementRead a i => ArrayObject.get a i
  | elementValue a i => ArrayObject.getValue a i
  | elementScalar k a i => ArrayObject.getScalar k a i
  | elementWrite a i x => ArrayObject.set a i x
  | elementWriteScalar a i k x => ArrayObject.setScalar a i k x
  | resize a n => ArrayObject.resize a n.toNat
  | push a x => ArrayObject.push a x
  | reshape a dims => ArrayObject.reshape a (dims.map UInt64.toNat)
  | newRecord t args => Record.new t args
  | newRecordUninit t => Record.newUninit t
  | fieldCount v => Record.fieldCount v
  | fieldRead v i => Record.read v i
  | fieldReadByName v name => Record.readByName v name
  | fieldIsDefined v i => Record.isDefined v i
  | fieldValue v i => Record.readValue v i
  | fieldScalar k v i => Record.readScalar k v i
  | fieldWrite v i x => Record.write v i x
  | fieldWriteScalar v i k x => Record.writeScalar v i k x
  | newModule name parent => ModuleObject.new name parent
  | moduleName m => ModuleObject.name m
  | moduleParent m => ModuleObject.parent m
  | modulePath m => ModuleObject.path m
  | encode ts n => Node.encode ts n
  | decode ts v => Nodes.decode ts v
  | head ts e => Nodes.head ts e
  | setHead ts e s => Nodes.setHead ts e s
  | argumentCount ts e => Nodes.argumentCount ts e
  | argument ts e i => Nodes.argument ts e i
  | setArgument ts e i x => Nodes.setArgument ts e i x
  | pushArgument ts e x => Nodes.pushArgument ts e x
  | phiOperands ts phi => Nodes.phiOperands ts phi
  | phicValues ts phic => Nodes.phicValues ts phic
  | walk ts root => Nodes.walk ts root
  | visit ts root => Nodes.visit ts root

/-- The builder that an operation takes. -/
def builder? : Operation α → Option SimpleVector.Builder
  | builderSet b _ _ | builderTruncate b _ | publish b => some b
  | _ => none

/-! ## What an operation is about -/

/-- The buffer of an array. -/
def BufferOf (h : Heap) (a v : Value) : Prop :=
  ∃ f, ArrayObject.info h a = .ok f ∧ v = f.buffer

/-- An array, or its buffer. -/
def ArrayOrBuffer (h : Heap) (a v : Value) : Prop :=
  ∃ f, ArrayObject.info h a = .ok f ∧ (v = a ∨ v = f.buffer)

/-- The byte at `k` in the payload of `v` belongs to what an operation on a heap is about: an object
whose type lets its fields change, an array, its buffer, or a simple vector under construction. -/
def Addresses : Operation α → Heap → Value → Nat → Prop
  | builderSet b _ _, _, v, _ | builderTruncate b _, _, v, _ => v = b.value
  | elementWrite a _ _, h, v, _ | elementWriteScalar a _ _ _, h, v, _ => BufferOf h a v
  | resize a _, h, v, _ | push a _, h, v, _ => ArrayOrBuffer h a v
  | reshape a _, h, v, k =>
    v = a ∧ (∃ f, ArrayObject.info h a = .ok f) ∧ ArrayObject.flagsWord ≤ k ∧
      k < ArrayObject.flagsWord + refSize
  | fieldWrite w _ _, h, v, _ | fieldWriteScalar w _ _ _, h, v, _ => v = w ∧ Record.Mutable h w
  | setHead _ e _, h, v, _ => v = e ∧ Record.Mutable h e
  | setArgument ts e _ _, h, v, _ => ∃ args, Nodes.ArgumentsOf ts h e args ∧ BufferOf h args v
  | pushArgument ts e _, h, v, _ => ∃ args, Nodes.ArgumentsOf ts h e args ∧ ArrayOrBuffer h args v
  | _, _, _, _ => False

/-- Objects whose types let somebody change them: arrays, buffers, and objects with mutable fields. -/
def Changeable (h : Heap) (v : Value) : Prop :=
  ∃ d, h.descriptor v = .ok d ∧ (d.kind = .array ∨ d.kind = .buffer ∨ d.isMutable = true)

section Changeable

variable {h h' : Heap} {a v : Value} {k : Nat}

theorem changeable_of_mutable (hm : Record.Mutable h v) : Changeable h v := by
  obtain ⟨t, ht, hm⟩ := hm
  obtain ⟨d, hd, hm⟩ := bind_eq_ok.1 hm
  exact ⟨d, descriptor_eq_ok.2 ⟨t, ht, hd⟩, .inr (.inr (pure_eq_ok.1 hm))⟩

theorem changeable_of_info (hs : h.Sound) {f : ArrayInfo} (hf : ArrayObject.info h a = .ok f) :
    Changeable h a ∧ Changeable h f.buffer := by
  have ha := isArray_of_info hs.registry hf
  obtain ⟨rank, t, d, n, ht, hd, hkind, -⟩ := ha.type
  have hbuffer := descriptor_eq_ok.2 ⟨_, (hs.arrays ha).body.buffer, hs.descriptor_buffer⟩
  exact ⟨⟨d, descriptor_eq_ok.2 ⟨t, ht, hd⟩, .inl hkind⟩, ⟨_, hbuffer, .inr (.inl rfl)⟩⟩

theorem not_changeable_of_vector (hs : h.Sound) (ht : h.typeOf v = .ok Builtin.simpleVector) :
    ¬Changeable h v := by
  rintro ⟨d, hd, hopen⟩
  obtain ⟨t, ht', hd⟩ := descriptor_eq_ok.1 hd
  rw [ht] at ht'
  cases ht'
  rw [hs.descriptor_simpleVector] at hd
  cases hd
  rcases hopen with hkind | hkind | hkind <;> cases hkind

/-- What an operation is about is open to change, or the vector that its builder works on. -/
theorem changeable_of_addresses (hs : h.Sound) {o : Operation α} (ha : o.Addresses h v k) :
    Changeable h v ∨ ∃ b, o.builder? = some b ∧ v = b.value := by
  have hbufferOf {a : Value} (hv : BufferOf h a v) : Changeable h v := by
    obtain ⟨f, hf, rfl⟩ := hv
    exact (changeable_of_info hs hf).2
  have harrayOr {a : Value} (hv : ArrayOrBuffer h a v) : Changeable h v := by
    obtain ⟨f, hf, rfl | rfl⟩ := hv
    · exact (changeable_of_info hs hf).1
    · exact (changeable_of_info hs hf).2
  cases o with
  | builderSet b i x => exact .inr ⟨b, rfl, ha⟩
  | builderTruncate b length => exact .inr ⟨b, rfl, ha⟩
  | elementWrite a i x => exact .inl (hbufferOf ha)
  | elementWriteScalar a i k x => exact .inl (hbufferOf ha)
  | resize a n => exact .inl (harrayOr ha)
  | push a x => exact .inl (harrayOr ha)
  | reshape a dims =>
    obtain ⟨rfl, ⟨f, hf⟩, -⟩ := ha
    exact .inl (changeable_of_info hs hf).1
  | fieldWrite w i x =>
    obtain ⟨rfl, hm⟩ := ha
    exact .inl (changeable_of_mutable hm)
  | fieldWriteScalar w i k x =>
    obtain ⟨rfl, hm⟩ := ha
    exact .inl (changeable_of_mutable hm)
  | setHead ts e s =>
    obtain ⟨rfl, hm⟩ := ha
    exact .inl (changeable_of_mutable hm)
  | setArgument ts e i x =>
    obtain ⟨args, -, hv⟩ := ha
    exact .inl (hbufferOf hv)
  | pushArgument ts e x =>
    obtain ⟨args, -, hv⟩ := ha
    exact .inl (harrayOr hv)
  | _ => exact ha.elim

end Changeable

/-! ## What operations do -/

/-- What callers can rely on if they get an answer: builders know their vectors, arrays are arrays. -/
def Gives : Operation α → Heap → α → Heap → Prop
  | build _, h, b, h' => ¬h.Live b.value ∧ b.Holds h'
  | builderSet b _ _, _, _, h' => b.Holds h'
  | builderTruncate b length, _, b', h' => b' = { b with length } ∧ b'.Holds h'
  | newArray _ _, _, a, h' | newVector _ _, _, a, h' | reshape _ _, _, a, h' => ∃ f, h'.IsArray a f
  | _, _, _, _ => True

/-- Anything but the collector changing flags of its own accord. -/
def isMutator : Operation α → Bool
  | setGcBits _ _ | takeRemembered => false
  | _ => true

/-- Operations that are about the flags of the collector. -/
def isForCollector : Operation α → Bool
  | .setGcBits _ _ | .writeBarrier _ _ | .queueRoot _ | .drainRoots | .takeRemembered => true
  | _ => false

/-- Someone other than the barrier queues something. -/
def queuesByHand : Operation α → Bool
  | queueRoot _ => true
  | _ => false

/-- The operation that hands the queue of the barrier over. -/
def takesRoots : Operation α → Bool
  | takeRemembered => true
  | _ => false

variable {h : Heap} {S : Value → Nat → Prop} {x : HeapM α} {P Q : α → Heap → Prop}

/-- An operation that computes types or layouts at most. -/
theorem learns_gives (hx : Meets Learns x h P) (hQ : ∀ a h', P a h' → Q a h') : Meets (Path S) x h Q :=
  (learns_meets hx).mono fun a h' _ hP => hQ a h' hP

theorem toNat_lt {dims : List UInt64} : ∀ d ∈ dims.map UInt64.toNat, d < 0x10000000000000000 := by
  intro d hd
  obtain ⟨x, -, rfl⟩ := List.mem_map.1 hd
  exact x.toNat_lt

/-- An operation leads along a path of steps, whether it succeeds or fails. Of what was there it changes
only what it addresses. -/
theorem stores_meets (hs : h.Sound) (o : Operation α) (hb : ∀ b, o.builder? = some b → b.Holds h)
    (ho : o.isForCollector = false) :
    Meets (Path fun v k => o.Addresses h v k ∨ ¬h.Live v) o.perform h (o.Gives h) := by
  have hr : Ready (fun v k => o.Addresses h v k ∨ ¬h.Live v) h := ⟨hs, fun hv _ => .inr hv⟩
  have hinfo {a : Value} {f : ArrayInfo} (ha : h.IsArray a f) : ArrayObject.info h a = .ok f :=
    hs.info_iff.2 ha
  cases o with
  | declare d =>
    exact learns_gives (onTypes_meets (TypeTable.declare_meets hs.registry.types d)) fun _ _ _ => trivial
  | declareOrFind d =>
    exact learns_gives (onTypes_meets (TypeTable.declareOrFind_meets hs.registry.types d)) fun _ _ _ => trivial
  | define d =>
    exact learns_gives (onTypes_meets (TypeTable.define_meets hs.registry.types d)) fun _ _ _ => trivial
  | apply name ps =>
    exact learns_gives (onTypes_meets (TypeTable.apply_meets hs.registry.types name ps)) fun _ _ _ => trivial
  | union members =>
    exact learns_gives (onTypes_meets (TypeTable.union_meets hs.registry.types members)) fun _ _ _ => trivial
  | tupleType fields =>
    exact learns_gives (onTypes_meets (TypeTable.tupleType_meets hs.registry.types fields)) fun _ _ _ => trivial
  | arrayType elem ndims =>
    exact learns_gives (onTypes_meets (TypeTable.arrayType_meets hs.registry.types elem ndims))
      fun _ _ _ => trivial
  | registerNodes =>
    exact learns_gives (onTypes_meets (NodeTypes.register_meets hs.registry.types)) fun _ _ _ => trivial
  | layout t => exact learns_gives (layout_meets t) fun _ _ _ => trivial
  | sizeOf t => exact learns_gives (sizeOf_meets t) fun _ _ _ => trivial
  | alignmentOf t => exact learns_meets (onRegistry_meets (Registry.alignmentOf_meets t))
  | isInline t => exact learns_gives (isInline_meets t) fun _ _ _ => trivial
  | typeFieldCount t => exact learns_meets (onRegistry_meets (Registry.fieldCount_meets t))
  | typeField t i => exact learns_meets (onRegistry_meets (Registry.field_meets t i))
  | typeFieldIndex t name => exact learns_meets (onRegistry_meets (Registry.fieldIndex_meets t name))
  | reportBuiltins => exact learns_meets (onRegistry_meets Report.builtins_meets)
  | reportLayout name => exact learns_meets (onRegistry_meets (Report.layoutOf_meets name))
  | intern s => exact ⟨.step (.symbol s), fun _ _ => trivial⟩
  | allocate t extra => exact (allocate_meets hr t extra).mono fun _ _ _ _ => trivial
  | setGcBits v g => cases ho
  | writeBarrier parent child => cases ho
  | queueRoot v => cases ho
  | drainRoots => cases ho
  | takeRemembered => cases ho
  | box k x => exact (Box.new_meets hr k x).mono fun _ _ _ _ => trivial
  | boxType t => exact (Box.newType_meets hr t).mono fun _ _ _ _ => trivial
  | newString s => exact (Text.new_meets hr s).mono fun _ _ _ _ => trivial
  | newStringOfBytes bs => exact (Text.ofBytes_meets hr bs).mono fun _ _ _ _ => trivial
  | newBuffer length => exact (Buffer.new_meets hr length).mono fun _ _ _ _ => trivial
  | newSimpleVector items => exact (SimpleVector.new_meets hr items).mono fun _ _ _ _ => trivial
  | simpleVectorOfParams ps => exact (SimpleVector.ofParams_meets hr ps).mono fun _ _ _ _ => trivial
  | build length => exact (SimpleVector.build_meets hr length).mono fun _ _ _ hb => ⟨hb.1, hb.2.2⟩
  | builderSet b i x => exact b.set_meets hs (hb b rfl) (fun _ => .inl rfl) i x
  | builderTruncate b length => exact b.truncate_meets hs (hb b rfl) (fun _ => .inl rfl) length
  | publish b => exact Meets.pure trivial
  | newArray elem dims =>
    exact (ArrayObject.new_meets hr elem toNat_lt).mono fun _ _ _ ⟨f, ha⟩ => ⟨f, ha.array⟩
  | newVector elem length =>
    exact (ArrayObject.newVector_meets hr elem _).mono fun _ _ _ ⟨f, ha⟩ => ⟨f, ha.array⟩
  | elementRead a i => exact learns_gives (ArrayObject.get_meets hs a i) fun _ _ _ => trivial
  | elementValue a i => exact ArrayObject.getValue_meets hr a i
  | elementScalar k a i => exact learns_meets (ArrayObject.getScalar_meets hs k a i)
  | elementWrite a i x =>
    exact ArrayObject.set_meets hs (fun ha _ => .inl ⟨_, hinfo ha, rfl⟩) i x
  | elementWriteScalar a i k x =>
    exact ArrayObject.setScalar_meets hr (fun ha _ => .inl ⟨_, hinfo ha, rfl⟩) i k x
  | resize a n =>
    exact (ArrayObject.resize_meets hr (fun ha _ => .inl ⟨_, hinfo ha, .inl rfl⟩)
      (fun ha _ => .inl ⟨_, hinfo ha, .inr rfl⟩) n.toNat_lt).mono fun _ _ _ _ => trivial
  | push a x =>
    exact ArrayObject.push_meets hr (fun ha _ => .inl ⟨_, hinfo ha, .inl rfl⟩)
      (fun ha _ => .inl ⟨_, hinfo ha, .inr rfl⟩) x
  | reshape a dims =>
    refine (ArrayObject.reshape_meets hr (fun ha j hlo hhi => ?_) toNat_lt).mono
      fun _ _ _ ⟨_, _, _, _, hv⟩ => ⟨_, hv⟩
    exact .inl ⟨rfl, ⟨_, hinfo ha⟩, hlo, hhi⟩
  | newRecord t args => exact (Record.new_meets hr t args).mono fun _ _ _ _ => trivial
  | newRecordUninit t => exact (Record.newUninit_meets hr t).mono fun _ _ _ _ => trivial
  | fieldCount v => exact learns_meets (Record.fieldCount_meets v)
  | fieldRead v i => exact learns_meets (Record.read_meets v i)
  | fieldReadByName v name => exact learns_meets (Record.readByName_meets v name)
  | fieldIsDefined v i => exact learns_meets (Record.isDefined_meets v i)
  | fieldValue v i => exact Record.readValue_meets hr v i
  | fieldScalar k v i => exact learns_meets (Record.readScalar_meets k v i)
  | fieldWrite v i x => exact Record.write_meets hr (fun hm _ => .inl ⟨rfl, hm⟩) i x
  | fieldWriteScalar v i k x => exact Record.writeScalar_meets hr (fun hm _ => .inl ⟨rfl, hm⟩) i k x
  | newModule name parent => exact (ModuleObject.new_meets hr name parent).mono fun _ _ _ _ => trivial
  | moduleName m => exact learns_meets (ModuleObject.name_meets m)
  | moduleParent m => exact learns_meets (ModuleObject.parent_meets m)
  | modulePath m => exact learns_meets (ModuleObject.path_meets m)
  | encode ts n => exact Node.encode_meets hr ts n
  | decode ts v => exact learns_meets (Nodes.decode_meets hs ts v)
  | head ts e => exact learns_meets (Nodes.head_meets ts e)
  | setHead ts e s => exact Nodes.setHead_meets hr (fun hm _ => .inl ⟨rfl, hm⟩) ts s
  | argumentCount ts e => exact learns_meets (Nodes.argumentCount_meets ts e)
  | argument ts e i => exact learns_meets (Nodes.argument_meets hs ts e i)
  | setArgument ts e i x =>
    exact Nodes.setArgument_meets hr (fun hargs ha _ => .inl ⟨_, hargs, _, hinfo ha, rfl⟩) i x
  | pushArgument ts e x =>
    refine Nodes.pushArgument_meets hr (fun hargs ha => ⟨fun _ => ?_, fun _ => ?_⟩) x
    · exact .inl ⟨_, hargs, _, hinfo ha, .inl rfl⟩
    · exact .inl ⟨_, hargs, _, hinfo ha, .inr rfl⟩
  | phiOperands ts phi => exact learns_meets (Nodes.phiOperands_meets hs ts phi)
  | phicValues ts phic => exact learns_meets (Nodes.phicValues_meets hs ts phic)
  | walk ts root => exact learns_meets (Nodes.walk_meets hs ts root)
  | visit ts root => exact learns_meets (Nodes.visit_meets hs ts root)

/-- Whoever works for the collector marks objects. -/
theorem marks_meets (hs : h.Sound) (o : Operation α) (ho : o.isForCollector = true) :
    Meets (Marks S) o.perform h (o.Gives h) := by
  cases o with
  | setGcBits v g => exact (setGcBits_meets hs v g).mono fun _ _ _ _ => trivial
  | writeBarrier parent child => exact (writeBarrier_meets hs parent child).mono fun _ _ _ _ => trivial
  | queueRoot v => exact Meets.change (.of_rewrites (.withBarrier _ h _) rfl) trivial
  | drainRoots => exact drainRoots_meets.mono fun _ _ _ _ => trivial
  | takeRemembered => exact (takeRemembered_meets hs).mono fun _ _ _ _ => trivial
  | _ => cases ho

/-- What the barrier is told changes no object, apart from the flag that it sets. -/
theorem mutator_meets (hs : h.Sound) (o : Operation α) (hb : ∀ b, o.builder? = some b → b.Holds h)
    (ho : o.isMutator = true) :
    Meets (Mutates fun v k => o.Addresses h v k ∨ ¬h.Live v) o.perform h (o.Gives h) := by
  cases hcollector : o.isForCollector with
  | false => exact (o.stores_meets hs hb hcollector).weaken fun _ => .path
  | true =>
    refine ⟨.told ?_, (o.marks_meets (S := fun _ _ => True) hs hcollector).answer⟩
    cases o with
    | writeBarrier parent child => exact .guarded hs.arena parent child
    | queueRoot v => exact .withBarrier _ h _
    | drainRoots => exact .withBarrier _ h _
    | setGcBits v g => cases ho
    | takeRemembered => cases ho
    | _ => cases hcollector

/-- With the collector's operations, an operation leads along steps and changes of flags. -/
theorem perform_meets (hs : h.Sound) (o : Operation α) (hb : ∀ b, o.builder? = some b → b.Holds h) :
    Meets (Trail fun v k => o.Addresses h v k ∨ ¬h.Live v) o.perform h (o.Gives h) := by
  cases hcollector : o.isForCollector with
  | false => exact (o.stores_meets hs hb hcollector).weaken fun _ path => path.trail
  | true => exact (o.marks_meets hs hcollector).weaken fun _ hm => hm.trail

end Operation

end TypedHeap
