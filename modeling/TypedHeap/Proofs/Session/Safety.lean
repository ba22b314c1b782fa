import TypedHeap.Proofs.Node.Order
import TypedHeap.Proofs.Session.Run

/-!
# Nothing finds damage

Values can be made up, indices may be any numbers, and an operation that fails may have done something before
that. Even so no operation and no question ever runs into memory that is not as it should be. The one thing
that can be missing is the buffer of an object that a caller allocated as an array without making one of it.

* `Operation.LeavesRaw`, `Session.RawArray`: such objects.
* `Question`, `Question.ask`: what can be asked without a change.
* `ArrayObject.Answers`: what an array answers for an index in use.

Main result: `Session.Reachable.undamaged`.
-/

namespace TypedHeap

open TypedHeap.Action (Fails runOn_bind_ok runOn_bind_error)
open Heap
open Error (Innocent)

variable {α : Type} {B : Value → Prop} {h : Heap} {a : Value} {f : ArrayInfo} {i : Nat}

/-! ## Operations -/

namespace Operation

/-- An operation answers with an object of an array type that was allocated, but made no array. -/
def LeavesRaw : Operation α → Heap → Value → Prop
  | allocate t extra, h, a =>
    ((Heap.allocate t extra).runOn h).1 = .ok a ∧ ∃ d, h.types.descriptor t = .ok d ∧ d.kind = .array
  | _, _, _ => False

theorem allocate_behaves (ho : InOrder B h) (t : TypeRef) (extra : Nat)
    (hraw : ∀ a, (allocate t extra).LeavesRaw h a → B a) : Behaves B (Heap.allocate t extra) h := by
  obtain ⟨v, h', hrun, hv⟩ | ⟨e, h', hrun, hl, he⟩ := allocate_cases (B := B) ho.sound t extra
  · have hpath := (allocate_meets ho.ready t extra).kept
    rw [hrun] at hpath
    refine .of_runOn hrun .ok (ho.added hpath hv ?_)
    rintro ⟨elem, rank, s, d, n, ht, hd, hkind, -⟩
    obtain rfl := Except.ok.inj (hv.type.symm.trans ht)
    -- The type was there before, or nothing would have been allocated.
    cases hd₀ : h.types.descriptor t with
    | error e =>
      rw [allocate_eq, runOn_bind_ok (Action.runOn_get h), hd₀, runOn_bind_error (Action.runOn_lift _ h)] at hrun
      cases hrun
    | ok d₀ =>
      obtain rfl := Except.ok.inj ((hv.kept.descriptor hd₀).symm.trans hd)
      exact hraw v ⟨by rw [hrun], d₀, hd₀, hkind⟩
  · exact .of_runOn hrun (.error he) (ho.learns hl)

/-- An operation keeps the heap in order, and fails with innocent errors only. -/
theorem perform_behaves (ho : InOrder B h) (o : Operation α) (hb : ∀ b, o.builder? = some b → b.Holds h)
    (hraw : ∀ a, o.LeavesRaw h a → B a) : Behaves B o.perform h := by
  have htypes := ho.sound.registry.types
  have ask {x : Action Registry α} {Q : α → Heap → Prop} (hm : Action.Meets Learns (onRegistry x) h Q)
      (hf : Fails x h.registry Error.IsAboutLayouts) : Behaves B (onRegistry x) h :=
    .of_types ho hm (Fails.focus hf)
  cases o with
  | declare d => exact onTypes_behaves ho (TypeTable.declare_meets htypes d) (TypeTable.declare_fails d)
  | declareOrFind d =>
    exact onTypes_behaves ho (TypeTable.declareOrFind_meets htypes d) (TypeTable.declareOrFind_fails d)
  | define d => exact onTypes_behaves ho (TypeTable.define_meets htypes d) (TypeTable.define_fails d)
  | apply name ps => exact onTypes_behaves ho (TypeTable.apply_meets htypes name ps) (TypeTable.apply_fails name ps)
  | union members => exact onTypes_behaves ho (TypeTable.union_meets htypes members) (TypeTable.union_fails members)
  | tupleType fields =>
    exact onTypes_behaves ho (TypeTable.tupleType_meets htypes fields) (TypeTable.apply_fails _ _)
  | arrayType elem ndims => exact ArrayObject.arrayType_behaves ho elem ndims
  | registerNodes => exact onTypes_behaves ho (NodeTypes.register_meets htypes) NodeTypes.register_fails
  | layout t => exact layout_behaves ho t
  | sizeOf t => exact sizeOf_behaves ho t
  | alignmentOf t => exact ask (onRegistry_meets (Registry.alignmentOf_meets t)) (Registry.alignmentOf_fails t)
  | isInline t => exact isInline_behaves ho t
  | typeFieldCount t => exact ask (onRegistry_meets (Registry.fieldCount_meets t)) (Registry.fieldCount_fails t)
  | typeField t i => exact ask (onRegistry_meets (Registry.field_meets t i)) (Registry.field_fails t i)
  | typeFieldIndex t name =>
    exact ask (onRegistry_meets (Registry.fieldIndex_meets t name)) (Registry.fieldIndex_fails t name)
  | reportBuiltins => exact ask (onRegistry_meets Report.builtins_meets) Report.builtins_fails
  | reportLayout name => exact ask (onRegistry_meets (Report.layoutOf_meets name)) (Report.layoutOf_fails name)
  | intern s => exact intern_behaves ho s
  | allocate t extra => exact allocate_behaves ho t extra hraw
  | setGcBits v g => exact setGcBits_behaves ho v g
  | writeBarrier parent child => exact writeBarrier_behaves ho parent child
  | queueRoot v => exact ⟨.of_runOn rfl .ok, ho.marks (S := fun _ _ => True) (.of_rewrites (.withBarrier _ h _) rfl)⟩
  | drainRoots => exact drainRoots_behaves ho
  | takeRemembered => exact takeRemembered_behaves ho
  | box k x => exact Box.new_behaves ho k x
  | boxType t => exact Box.newType_behaves ho t
  | newString s => exact Text.ofBytes_behaves ho _
  | newStringOfBytes bs => exact Text.ofBytes_behaves ho bs
  | newBuffer length => exact Buffer.new_behaves ho length
  | newSimpleVector items => exact SimpleVector.new_behaves ho items
  | simpleVectorOfParams ps => exact SimpleVector.ofParams_behaves ho ps
  | build length => exact SimpleVector.build_behaves ho length
  | builderSet b i x => exact b.set_behaves ho (hb b rfl) i x
  | builderTruncate b length => exact b.truncate_behaves ho (hb b rfl) length
  | publish b => exact .pure ho
  | newArray elem dims => exact ArrayObject.new_behaves ho elem toNat_lt
  | newVector elem length => exact ArrayObject.newVector_behaves ho elem _
  | elementRead a i => exact ArrayObject.get_behaves ho a i
  | elementValue a i => exact ArrayObject.getValue_behaves ho a i
  | elementScalar k a i => exact ArrayObject.getScalar_behaves ho k a i
  | elementWrite a i x => exact ArrayObject.set_behaves ho a i x
  | elementWriteScalar a i k x => exact ArrayObject.setScalar_behaves ho a i k x
  | resize a n => exact ArrayObject.resize_behaves ho a n.toNat_lt
  | push a x => exact ArrayObject.push_behaves ho a x
  | reshape a dims => exact ArrayObject.reshape_behaves ho a toNat_lt
  | newRecord t args => exact Record.new_behaves ho t args
  | newRecordUninit t => exact Record.newUninit_behaves ho t
  | fieldCount v => exact Record.fieldCount_behaves ho v
  | fieldRead v i => exact Record.read_behaves ho v i
  | fieldReadByName v name => exact Record.readByName_behaves ho v name
  | fieldIsDefined v i => exact Record.isDefined_behaves ho v i
  | fieldValue v i => exact Record.readValue_behaves ho v i
  | fieldScalar k v i => exact Record.readScalar_behaves ho k v i
  | fieldWrite v i x => exact Record.write_behaves ho v i x
  | fieldWriteScalar v i k x => exact Record.writeScalar_behaves ho v i k x
  | newModule name parent => exact ModuleObject.new_behaves ho name parent
  | moduleName m => exact ModuleObject.name_behaves ho m
  | moduleParent m => exact ModuleObject.parent_behaves ho m
  | modulePath m => exact ModuleObject.path_behaves ho m
  | encode ts n => exact Node.encode_behaves ho ts n
  | decode ts v => exact Nodes.decode_behaves ho ts v
  | head ts e => exact Nodes.head_behaves ho ts e
  | setHead ts e s => exact Nodes.setHead_behaves ho ts e s
  | argumentCount ts e => exact Nodes.argumentCount_behaves ho ts e
  | argument ts e i => exact Nodes.argument_behaves ho ts e i
  | setArgument ts e i x => exact Nodes.setArgument_behaves ho ts e i x
  | pushArgument ts e x => exact Nodes.pushArgument_behaves ho ts e x
  | phiOperands ts phi => exact Nodes.phiOperands_behaves ho ts phi
  | phicValues ts phic => exact Nodes.phicValues_behaves ho ts phic
  | walk ts root => exact Nodes.walk_behaves ho ts root
  | visit ts root => exact Nodes.visit_behaves ho ts root

/-- An operation that fails has not allocated what it was asked for. -/
theorem not_leavesRaw_of_error {o : Operation α} {e : Error} (he : (o.perform.runOn h).1 = .error e) :
    ¬o.LeavesRaw h a := by
  intro hraw
  cases o with
  | allocate t extra => cases he.symm.trans hraw.1
  | _ => exact hraw

end Operation

/-! ## Questions -/

/-- A question that only looks at the heap, by what it answers. -/
inductive Question : Type → Type
  -- Objects as such
  | objectSize (v : Value) : Question Nat
  | payload (v : Value) : Question (List UInt8)
  | header (v : Value) : Question Header
  | typeOf (v : Value) : Question TypeRef
  | descriptor (v : Value) : Question Descriptor
  | gcBits (v : Value) : Question GcBits
  | isOfType (v : Value) (t : TypeRef) : Question Bool
  | isa (v : Value) (t : TypeRef) : Question Bool
  -- Boxes, strings, buffers and simple vectors
  | unbox (k : ScalarKind) (v : Value) : Question k.Carrier
  | unboxType (v : Value) : Question TypeRef
  | scalarOf (k : ScalarKind) (d : Datum) : Question k.Carrier
  | stringLength (v : Value) : Question Nat
  | stringData (v : Value) : Question (List UInt8)
  | stringText (v : Value) : Question String
  | bufferLength (v : Value) : Question Nat
  | bufferData (v : Value) : Question (List UInt8)
  | simpleVectorLength (v : Value) : Question Nat
  | simpleVectorItem (v : Value) (i : Nat) : Question Value
  -- Arrays
  | arrayLength (a : Value) : Question Nat
  | arrayRank (a : Value) : Question Nat
  | arrayDim (a : Value) (k : Nat) : Question Nat
  | arrayDims (a : Value) : Question (List Nat)
  | elementType (a : Value) : Question TypeRef
  | storage (a : Value) : Question ElementStorage
  | isShared (a : Value) : Question Bool
  | capacity (a : Value) : Question Nat
  | slotSize (a : Value) : Question Nat
  | owner (a : Value) : Question Value
  | linearIndex (a : Value) (position : List Nat) : Question Nat
  | arrayData (a : Value) : Question ArrayObject.ElementPointer
  | isCurrent (a : Value) (p : ArrayObject.ElementPointer) : Question Bool
  -- Nodes
  | kindOf (ts : NodeTypes) (v : Value) : Question (Option NodeKind)

namespace Question

/-- What a heap answers. -/
def ask (h : Heap) : Question α → Except Error α
  | objectSize v => h.objectSize v
  | payload v => h.payload v
  | header v => h.header v
  | typeOf v => h.typeOf v
  | descriptor v => h.descriptor v
  | gcBits v => h.gcBits v
  | isOfType v t => h.isOfType v t
  | isa v t => h.isa v t
  | unbox k v => Box.read k h v
  | unboxType v => Box.readType h v
  | scalarOf k d => d.read k h
  | stringLength v => Text.length h v
  | stringData v => Text.data h v
  | stringText v => Text.read h v
  | bufferLength v => Buffer.length h v
  | bufferData v => Buffer.data h v
  | simpleVectorLength v => SimpleVector.length h v
  | simpleVectorItem v i => SimpleVector.get h v i
  | arrayLength a => ArrayObject.length h a
  | arrayRank a => ArrayObject.ndims h a
  | arrayDim a k => ArrayObject.dim h a k
  | arrayDims a => ArrayObject.dims h a
  | elementType a => ArrayObject.elementType h a
  | storage a => ArrayObject.storage h a
  | isShared a => ArrayObject.isShared h a
  | capacity a => ArrayObject.capacity h a
  | slotSize a => ArrayObject.slotSize h a
  | owner a => ArrayObject.owner h a
  | linearIndex a position => ArrayObject.linearIndex h a position
  | arrayData a => ArrayObject.data h a
  | isCurrent a p => ArrayObject.isCurrent h a p
  | kindOf ts v => Nodes.kindOf ts h v

theorem ask_innocent (ho : InOrder B h) (q : Question α) : Raises (q.ask h) (Innocent B) := by
  have hs := ho.sound
  cases q with
  | objectSize v => exact objectSize_innocent h v
  | payload v => exact hs.payload_innocent v
  | header v => exact hs.arena.header_innocent v
  | typeOf v => exact hs.typeOf_innocent v
  | descriptor v => exact hs.descriptor_innocent v
  | gcBits v => exact hs.arena.gcBits_innocent v
  | isOfType v t => exact Raises.bind (hs.typeOf_innocent v) fun _ _ => .pure
  | isa v t => exact hs.isa_innocent v t
  | unbox k v => exact Box.read_innocent hs k v
  | unboxType v => exact Box.read_innocent hs .dataType v
  | scalarOf k d => exact Datum.read_innocent hs k d
  | stringLength v => exact Text.length_innocent hs v
  | stringData v => exact Text.data_innocent hs v
  | stringText v => exact Text.read_innocent hs v
  | bufferLength v => exact Buffer.length_innocent hs v
  | bufferData v => exact Buffer.data_innocent hs v
  | simpleVectorLength v => exact SimpleVector.length_innocent hs v
  | simpleVectorItem v i => exact SimpleVector.get_innocent hs v i
  | arrayLength a => exact ArrayObject.length_innocent ho a
  | arrayRank a => exact ArrayObject.ndims_innocent ho a
  | arrayDim a k => exact ArrayObject.dim_innocent ho a k
  | arrayDims a => exact ArrayObject.dims_innocent ho a
  | elementType a => exact ArrayObject.ask_innocent ho a
  | storage a => exact ArrayObject.ask_innocent ho a
  | isShared a => exact ArrayObject.ask_innocent ho a
  | capacity a => exact ArrayObject.ask_innocent ho a
  | slotSize a => exact ArrayObject.ask_innocent ho a
  | owner a => exact ArrayObject.owner_innocent ho a
  | linearIndex a position => exact ArrayObject.linearIndex_innocent ho a position
  | arrayData a => exact ArrayObject.data_innocent ho a
  | isCurrent a p => exact ArrayObject.ask_innocent ho a
  | kindOf ts v => exact Nodes.kindOf_innocent hs ts v

end Question

/-! ## Elements -/

namespace ArrayObject

/-- What an array answers for an index in use, by how its elements are stored: the bits of the element type,
the bits of a member of the union that it is, or a reference if one was stored. -/
inductive Answers (h : Heap) (elem : TypeRef) (i : Nat) : ElementStorage → Except Error Datum → Prop
  | flat {bs : List UInt8} (size : (Heap.sizeOf elem).runOn h = (.ok bs.length, h)) :
      Answers h elem i .flat (.ok (.bits elem bs))
  | selected {d : Descriptor} {t : TypeRef} {bs : List UInt8} (union : h.types.descriptor elem = .ok d)
      (kind : d.kind = .union) (member : t ∈ d.memberTypes) (size : (Heap.sizeOf t).runOn h = (.ok bs.length, h)) :
      Answers h elem i .selected (.ok (.bits t bs))
  | reference {x : Value} (live : h.Live x) : Answers h elem i .references (.ok (.ref x))
  | undefined : Answers h elem i .references (.error (.undefined ("array element " ++ toString i)))

theorem answers (hs : h.Sound) (ha : h.IsArray a f) (hi : i < f.length) :
    ∃ r, (get a i).runOn h = (r, h) ∧ Answers h f.elem i f.flags.storage r := by
  have hb := (hs.arrays ha).body
  have hstored := hb.stored
  obtain ⟨d, hd⟩ := exists_shows hb hi
  refine ⟨_, runOn_get hs ha hi hd, ?_⟩
  cases hd with
  | reference storage =>
    rw [storage]
    cases hslot : h.slot f.buffer (refSize + f.slotOffset i) with
    | none => exact .undefined
    | some x =>
      obtain ⟨t, ht, -⟩ := isa_eq_ok.1 (hb.fits storage i hi x hslot)
      exact .reference (live_of_typeOf ht)
  | @bits t n bits =>
    have hsize : (Heap.sizeOf t).runOn h = (.ok n, h) := by
      obtain ⟨l, hl, -, hn, -⟩ := bits.layout hb
      exact runOn_sizeOf hs.registry ⟨l, hl, hn⟩
    rw [← Memory.length_window h.memory (f.buffer.offset + (refSize + f.slotOffset i)) n] at hsize
    cases bits with
    | flat storage same size =>
      subst same
      rw [storage]
      exact .flat hsize
    | member storage union selector size =>
      rw [storage] at hstored ⊢
      cases hstored with
      | selected wide hd hkind widest inPlace =>
        cases (show h.types.descriptor f.elem = _ from hd).symm.trans union
        exact .selected union hkind (List.mem_of_getElem? selector) hsize

end ArrayObject

/-! ## Sessions -/

namespace Session

variable {s t : Session}

/-- An object of an array type that a caller allocated without making an array. -/
def RawArray (s : Session) (a : Value) : Prop :=
  ∃ (s₀ : Session) (o : Operation Value), Reachable s₀ ∧ o.LeavesRaw s₀.heap a ∧ Leads (s₀.next o) s

theorem RawArray.next {o : Operation α} (hraw : s.RawArray a) (allowed : s.Allows o) : (s.next o).RawArray a := by
  obtain ⟨s₀, o₀, hs₀, ho₀, hleads⟩ := hraw
  exact ⟨s₀, o₀, hs₀, ho₀, hleads.next o allowed⟩

theorem rawArray_of_leavesRaw {o : Operation α} (hs : Reachable s) (ho : o.LeavesRaw s.heap a) :
    (s.next o).RawArray a := by
  cases o with
  | allocate t extra => exact ⟨s, _, hs, ho, .refl⟩
  | _ => exact ho.elim

theorem Leads.inOrder (h : Leads s t) (hs : Reachable s) (ho : InOrder s.RawArray s.heap) :
    Reachable t ∧ InOrder t.RawArray t.heap := by
  induction h with
  | refl => exact ⟨hs, ho⟩
  | next _ o allowed ih =>
    obtain ⟨ht, ho⟩ := ih
    refine ⟨ht.next o allowed, ?_⟩
    have hperform := o.perform_behaves (ho.mono fun _ hraw => hraw.next allowed)
      (fun b hb => ht.sound.builders b (allowed b hb)) fun _ hraw => rawArray_of_leavesRaw ht hraw
    rw [next_heap]
    exact hperform.order

theorem Reachable.inOrder (hs : Reachable s) : InOrder s.RawArray s.heap := by
  obtain ⟨config, barrier, h⟩ := hs
  exact (h.inOrder (reachable_start config barrier) (inOrder_fresh config barrier)).2

/-- No operation and no question tells of damage. A buffer is missing only from what was allocated as an array
without making one, and each array that was made answers for each index below its length. -/
theorem Reachable.undamaged (hs : Reachable s) :
    (∀ {α : Type} (o : Operation α), s.Allows o → Raises (o.perform.runOn s.heap).1 (Innocent s.RawArray)) ∧
      (∀ {α : Type} (q : Question α), Raises (q.ask s.heap) (Innocent s.RawArray)) ∧
      ∀ a ∈ s.arrays, ∃ n elem storage, ArrayObject.length s.heap a = .ok n ∧
        ArrayObject.elementType s.heap a = .ok elem ∧ ArrayObject.storage s.heap a = .ok storage ∧
          ∀ i, i < n → ∃ r, (ArrayObject.get a i).runOn s.heap = (r, s.heap) ∧
            ArrayObject.Answers s.heap elem i storage r := by
  have hsound := hs.sound
  have ho := hs.inOrder
  refine ⟨fun o allowed e he => ?_, fun q => q.ask_innocent ho, fun a ha => ?_⟩
  · refine (o.perform_behaves ho (fun b hb => hsound.builders b (allowed b hb)) fun a hraw => ?_).fails e he
    exact absurd hraw (Operation.not_leavesRaw_of_error he)
  · obtain ⟨f, hf⟩ := hsound.arrays a ha
    have hinfo := hsound.heap.info_iff.2 hf
    exact ⟨f.length, f.elem, f.flags.storage, bind_eq_ok.2 ⟨f, hinfo, rfl⟩, bind_eq_ok.2 ⟨f, hinfo, rfl⟩,
      bind_eq_ok.2 ⟨f, hinfo, rfl⟩, fun i hi => ArrayObject.answers hsound.heap hf hi⟩

/-- An object of an array type without a buffer, and an array of two numbers. -/
def roughed : Session :=
  start ⟨64, 4096⟩ .off
    |>.next (.arrayType Builtin.int64 1)
    |>.next (.allocate (typeAt 21) 1)
    |>.next (.newArray Builtin.int64 [2])

theorem undamaged_roughed :
    Reachable roughed ∧ ArrayObject.length roughed.heap (object 16) = .error (.invalidTag 16 .noBuffer) ∧
      (∃ a, roughed.RawArray a ∧ a.offset = 16) ∧
      ∀ i, i < 2 → ∃ r, (ArrayObject.get (object 112) i).runOn roughed.heap = (r, roughed.heap) ∧
        ArrayObject.Answers roughed.heap Builtin.int64 i .flat r := by
  have hs : Reachable roughed :=
    (((reachable_start _ _).next _ (by nofun)).next _ (by nofun)).next _ (by nofun)
  have hrun : ArrayObject.length roughed.heap (object 16) = .error (.invalidTag 16 .noBuffer) ∧
      object 112 ∈ roughed.arrays ∧ ArrayObject.length roughed.heap (object 112) = .ok 2 ∧
      ArrayObject.elementType roughed.heap (object 112) = .ok Builtin.int64 ∧
      ArrayObject.storage roughed.heap (object 112) = .ok .flat := by decide +kernel
  obtain ⟨hraw, hmem, hlength, helem, hstorage⟩ := hrun
  obtain ⟨-, hask, harrays⟩ := hs.undamaged
  obtain ⟨n, elem, storage, hn, ht, hk, hanswers⟩ := harrays _ hmem
  cases hlength.symm.trans hn
  cases helem.symm.trans ht
  cases hstorage.symm.trans hk
  exact ⟨hs, hraw, hask (.arrayLength (object 16)) _ hraw, hanswers⟩

end Session

end TypedHeap
