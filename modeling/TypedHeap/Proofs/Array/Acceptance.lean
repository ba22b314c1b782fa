import TypedHeap.Proofs.Heap.Normal
import TypedHeap.Proofs.Heap.Payloads
import TypedHeap.Proofs.Heap.Unharmed
import TypedHeap.Proofs.Types.Hierarchy

/-!
# What an array takes, and gives back

References are tested against the element type, bits for being of the element type, and bits of a union for being
of one of its members. These are three tests, but each says whether a value is of a type below the element type:
types whose elements lie in place come to types of bits, and below these there is nothing else.

* `Heap.BodySound.atom_bits`: the types that elements in place may have.
* `ArrayObject.setSlot`: a store once its checks are made.
* `ArrayObject.ReadBack`: what is read after a store.

Main results: `set_accepts`, `set_rejects`, `readBack`, `set_decided`, `set_refuses`.
-/

namespace TypedHeap

open TypedHeap.Action (Ends Yields)
open Heap ArrayObject

variable {h h' : Heap} {a v x : Value} {f : ArrayInfo} {t : TypeRef} {d : Descriptor} {l : Layout} {i n : Nat}
  {xs : List (Option Datum)}

namespace Heap

/-! ## Elements in place -/

/-- Where bits show, they lie in the slot. -/
theorem Shows.elementBits {bs : List UInt8} (hshows : h.Shows f i (some (.bits t bs))) :
    ∃ n, h.ElementBits f i t n ∧ bs = h.memory.window (f.buffer.offset + (refSize + f.slotOffset i)) n := by
  generalize hd : some (Datum.bits t bs) = d at hshows
  cases hshows with
  | reference storage =>
    rw [eq_comm, Option.map_eq_some_iff] at hd
    obtain ⟨x, -, hx⟩ := hd
    cases hx
  | bits bits =>
    cases hd
    exact ⟨_, bits, rfl⟩

namespace BodySound

/-- The elements of a type are registered with it. -/
theorem exists_descriptor (hb : h.BodySound f) (hs : h.Sound) : ∃ d, h.types.descriptor f.elem = .ok d := by
  have hstored := hb.stored
  generalize f.flags.storage = storage at hstored
  generalize f.flags.slotSize = n at hstored
  cases hstored with
  | flat inline size small =>
    obtain ⟨l, hl, -⟩ := size
    exact (hs.registry.layouts.describes hl).imp fun _ hd => hd.1
  | selected wide hd union => exact ⟨_, hd⟩
  | references wide hd other => exact ⟨_, hd⟩

/-- Plain bits are of the element type. -/
theorem atom_flat (hb : h.BodySound f) (hs : h.Sound) (hstorage : f.flags.storage = .flat) :
    h.types.Atom [f.elem] t ↔ t = f.elem := by
  obtain ⟨l, hl, -⟩ := hb.flat_bits hstorage
  obtain ⟨d, hd, hdesc⟩ := hs.registry.layouts.describes hl
  exact TypeTable.atom_single hd hdesc.concrete.2

/-- Bits with a selector are of a member of the element type, which is a union. -/
theorem atom_selected (hb : h.BodySound f) (hstorage : f.flags.storage = .selected)
    (hd : h.types.descriptor f.elem = .ok d) : h.types.Atom [f.elem] t ↔ t ∈ d.memberTypes := by
  have hstored := hb.stored
  rw [hstorage] at hstored
  cases hstored with
  | selected wide hd' union =>
    cases hd.symm.trans hd'
    exact TypeTable.atom_union hd union

/-- Where elements lie in place, whatever the element type comes to is bits. -/
theorem atom_bits (hb : h.BodySound f) (hs : h.Sound) (hplace : f.flags.storage ≠ .references)
    (ht : h.types.Atom [f.elem] t) : ∃ l, h.registry.layouts.find? t = some l ∧ l.isBits = true := by
  cases hstorage : f.flags.storage with
  | references => exact absurd hstorage hplace
  | flat =>
    obtain ⟨l, hl, hbits, -⟩ := hb.flat_bits hstorage
    rw [(hb.atom_flat hs hstorage).1 ht]
    exact ⟨l, hl, hbits⟩
  | selected =>
    obtain ⟨d, hd⟩ := hb.exists_descriptor hs
    obtain ⟨l, hl, hbits, -⟩ := hb.member_bits hstorage hd ((hb.atom_selected hstorage hd).1 ht)
    exact ⟨l, hl, hbits⟩

/-- There an object is below the element type only if its own type is one of these. -/
theorem isa_decides (hb : h.BodySound f) (hs : h.Sound) (hbelow : h.types.BelowAbstract)
    (hplace : f.flags.storage ≠ .references) (ht : h.typeOf x = .ok t) :
    TypeTable.Decides (h.types.isa t f.elem) (h.types.Atom [f.elem] t) := by
  obtain ⟨d, hd, hkind⟩ := hs.kind_of_object ht
  obtain ⟨e, he⟩ := hb.exists_descriptor hs
  refine TypeTable.isa_decides_atom hs.registry.types hbelow hd hkind he fun y hy => ?_
  obtain ⟨l, hl, -⟩ := hb.atom_bits hs hplace hy
  obtain ⟨c, hc, hdesc⟩ := hs.registry.layouts.describes hl
  exact ⟨c, hc, hdesc.concrete.1⟩

end BodySound

end Heap

namespace ArrayObject

/-! ## Stores -/

/-- A store, once the array, the index and the type of the value are known. -/
def setSlot (f : ArrayInfo) (i : Nat) (x : Value) (t : TypeRef) : HeapM Unit := do
  let slot := f.buffer.offset + refSize + f.slotOffset i
  match f.flags.storage with
  | .references =>
    let fits ← Action.look (·.types.isa t f.elem)
    if !fits then Action.look fun h => throw (h.types.mismatch f.elem t)
    Heap.storeRef f.buffer slot x
  | .flat =>
    if t ≠ f.elem then Action.look fun h => throw (h.types.mismatch f.elem t)
    Heap.copyBytes x.offset f.flags.slotSize slot
  | .selected =>
    let selector ← Action.look (selectorOf · f t)
    let size ← Heap.sizeOf t
    Heap.copyBytes x.offset size slot
    Heap.clearBytes (slot + size) (f.flags.slotSize - size)
    Heap.writeBytes (f.buffer.offset + refSize + f.selectorOffset i) [selector]

theorem runOn_set (hs : h.Sound) (ha : h.IsArray a f) (hi : i < f.length) (ht : h.typeOf x = .ok t) :
    (set a i x).runOn h = (setSlot f i x t).runOn h := by
  have htype : (Action.look (·.typeOf x)).runOn h = (.ok t, h) := by rw [Action.runOn_look, ht]
  unfold set
  rw [Action.runOn_bind_ok (hs.runOn_info ha), Action.runOn_bind_ok (f.runOn_checkIndex hi h),
    Action.runOn_bind_ok htype, Action.runOn_bind_ok (hs.runOn_start ha)]
  rfl

/-- The selector of a type is its place among the members. -/
theorem selectorOf_members (hd : h.types.descriptor f.elem = .ok d) :
    selectorOf h f t = match d.memberTypes.idxOf? t with
      | some k => .ok (UInt8.ofNat k)
      | none => .error (h.types.mismatch f.elem t) := by
  have hmembers : members h f = .ok d.memberTypes := bind_eq_ok.2 ⟨d, hd, rfl⟩
  unfold selectorOf
  rw [hmembers]
  show (match d.memberTypes.idxOf? t with
    | some k => pure (UInt8.ofNat k)
    | none => throw (h.types.mismatch f.elem t) : Except Error UInt8) = _
  cases d.memberTypes.idxOf? t <;> rfl

/-- Whatever is below the element type is taken. -/
theorem set_accepts (hs : h.Sound) (hbelow : h.types.BelowAbstract) (ha : h.IsArray a f) (hx : h.Holds f xs)
    (hi : i < f.length) (ht : h.typeOf x = .ok t) (hfits : h.types.isa t f.elem = .ok true) :
    Yields (set a i x) h fun _ h' => ∃ d, h'.Stores f.elem x d ∧ h'.Holds f (xs.set i (some d)) := by
  have hb := (hs.arrays ha).body
  refine .of_runOn_eq (runOn_set hs ha hi ht) ?_
  have hatom (hplace : f.flags.storage ≠ .references) : h.types.Atom [f.elem] t :=
    (hb.isa_decides hs hbelow hplace ht).eq_ok_iff.1 hfits
  unfold setSlot
  simp only [Nat.add_assoc]
  cases hstorage : f.flags.storage with
  | references =>
    refine Yields.look_bind hfits ?_
    rw [if_neg (by decide)]
    exact (setReference_yields hs ha hx hi hstorage (live_of_typeOf ht)).mono fun _ _ hdone => ⟨_, hdone.2.2⟩
  | flat =>
    have hsame := (hb.atom_flat hs hstorage).1 (hatom (by rw [hstorage]; nofun))
    rw [if_neg (not_not_intro hsame)]
    rw [hsame] at ht
    exact (Yields.of_ends (setFlat_ends hs ha hx hi hstorage ht)).mono fun _ _ => And.right
  | selected =>
    obtain ⟨d, hd⟩ := hb.exists_descriptor hs
    have hmem := (hb.atom_selected hstorage hd).1 (hatom (by rw [hstorage]; nofun))
    obtain ⟨l, hl, -, -⟩ := hb.member_bits hstorage hd hmem
    have hsize : h.registry.Sized t l.size := ⟨l, hl, rfl⟩
    cases hidx : d.memberTypes.idxOf? t with
    | none => exact absurd hmem (List.idxOf?_eq_none_iff.1 hidx)
    | some m =>
      obtain ⟨hlt, hget, -⟩ := List.idxOf?_eq_some_iff.1 hidx
      have hm : d.memberTypes[m]? = some t := List.getElem?_eq_some_iff.2 ⟨hlt, hget⟩
      refine Yields.look_bind (f := (selectorOf · f t)) (by rw [selectorOf_members hd, hidx]) ?_
      refine Yields.bind_ok (runOn_sizeOf hs.registry hsize) ?_
      rw [← Nat.add_assoc refSize]
      exact (Yields.of_ends (setMember_ends hs ha hx hi hstorage hd hm hsize ht)).mono fun _ _ => And.right

/-- Whatever is not is refused, and nothing is written. -/
theorem set_rejects (hs : h.Sound) (hbelow : h.types.BelowAbstract) (ha : h.IsArray a f) (hi : i < f.length)
    (ht : h.typeOf x = .ok t) (hfits : h.types.isa t f.elem = .ok false) :
    (set a i x).runOn h = (.error (h.types.mismatch f.elem t), h) := by
  have hb := (hs.arrays ha).body
  have hatom (hplace : f.flags.storage ≠ .references) : ¬h.types.Atom [f.elem] t := fun hatom => by
    have hyes := (hb.isa_decides hs hbelow hplace ht).eq_ok_iff.2 hatom
    rw [hfits] at hyes
    cases hyes
  have hthrow : (Action.look fun h : Heap => (throw (h.types.mismatch f.elem t) : Except Error PUnit)).runOn h =
      (.error (h.types.mismatch f.elem t), h) := Action.runOn_look _ h
  rw [runOn_set hs ha hi ht]
  unfold setSlot
  cases hstorage : f.flags.storage with
  | references =>
    have hask : (Action.look (·.types.isa t f.elem)).runOn h = (.ok false, h) := by rw [Action.runOn_look, hfits]
    exact (Action.runOn_bind_ok hask).trans (Action.runOn_bind_error hthrow)
  | flat =>
    have hother : t ≠ f.elem := fun hsame =>
      hatom (by rw [hstorage]; nofun) ((hb.atom_flat hs hstorage).2 hsame)
    dsimp only
    rw [if_pos hother]
    exact Action.runOn_bind_error hthrow
  | selected =>
    obtain ⟨d, hd⟩ := hb.exists_descriptor hs
    have hmem : t ∉ d.memberTypes := fun hmem =>
      hatom (by rw [hstorage]; nofun) ((hb.atom_selected hstorage hd).2 hmem)
    refine Action.runOn_bind_error ?_
    rw [Action.runOn_look, selectorOf_members hd, List.idxOf?_eq_none_iff.2 hmem]

/-! ## Reading back -/

/-- Bits are read into a new object of their type. -/
theorem runOn_getValue_bits (hs : h.Sound) (ha : h.IsArray a f) (hi : i < f.length) (hbits : h.ElementBits f i t n) :
    (getValue a i).runOn h = (copied t (f.buffer.offset + (refSize + f.slotOffset i)) n).runOn h := by
  unfold getValue
  rw [Action.runOn_bind_ok (runOn_get hs ha hi (.bits hbits))]
  dsimp only
  rw [Action.runOn_bind_ok (hs.runOn_info ha), Action.runOn_bind_ok (hs.runOn_start ha), Memory.length_window,
    Nat.add_assoc f.buffer.offset]
  rfl

/-- That takes room for the object. -/
theorem getValue_copies (hs : h.Sound) (ha : h.IsArray a f) (hi : i < f.length) (hbits : h.ElementBits f i t n) :
    (h.nextStart + n ≤ h.limit → ∃ v h', (getValue a i).runOn h = (.ok v, h') ∧
      Copy h h' v t (h.memory.window (f.buffer.offset + (refSize + f.slotOffset i)) n)) ∧
    (h.limit < h.nextStart + n → ∃ h', (getValue a i).runOn h =
      (.error (.outOfMemory (min (n + headerSize) maxWord) h.limit), h')) := by
  have hb := (hs.arrays ha).body
  obtain ⟨l, hl, hisBits, rfl, hle⟩ := hbits.layout hb
  have hend := hb.slot_end (Nat.lt_of_lt_of_le hi hb.length_le)
  rw [runOn_getValue_bits hs ha hi hbits]
  exact hs.copies hl hisBits (hs.size_buffer hb.buffer) (by omega)

/-- What was stored is read: the value itself where references are stored, else a new object with the type and
the bits that the value had. No other object is touched. -/
structure ReadBack (h h' : Heap) (a : Value) (i : Nat) (x : Value) : Prop where
  reference : storage h' a = .ok .references → (getValue a i).runOn h' = (.ok x, h')
  copy : storage h' a ≠ .ok .references → ∀ n, h.objectSize x = .ok n → h'.nextStart + n ≤ h'.limit →
    ∃ v h'', (getValue a i).runOn h' = (.ok v, h'') ∧ ¬h'.Live v ∧ h''.typeOf v = h.typeOf x ∧
      h''.payload v = h.payload x ∧ h'.Unharmed h''
  full : storage h' a ≠ .ok .references → ∀ n, h.objectSize x = .ok n → h'.limit < h'.nextStart + n →
    ∃ h'', (getValue a i).runOn h' = (.error (.outOfMemory (min (n + headerSize) maxWord) h'.limit), h'') ∧
      h'.Unharmed h''

/-- Reading an element touches new objects only. -/
theorem getValue_unharmed (hs : h.Sound) {r : Except Error Value} (hrun : (getValue a i).runOn h = (r, h')) :
    h.Unharmed h' := by
  have hpath := (getValue_meets (S := fun w _ => ¬h.Live w) ⟨hs, fun hv _ => hv⟩ a i).kept
  rw [hrun] at hpath
  exact hpath.unharmed hs

theorem storage_of_isArray (hs : h.Sound) (ha : h.IsArray a f) : storage h a = .ok f.flags.storage :=
  bind_eq_ok.2 ⟨f, hs.info_iff.2 ha, rfl⟩

/-- A store that shows in the buffer is read back. -/
theorem readBack {e : Datum} (hs : h.Sound) (ha : h.IsArray a f) (ht : h.typeOf x = .ok t) (hi : i < f.length)
    (hp : Path (fun w _ => w = f.buffer) h h') (hstores : h'.Stores f.elem x e) (hshows : h'.Shows f i (some e)) :
    ReadBack h h' a i x := by
  have hs' := hp.sound hs
  have hk := hp.keeps hs
  have hbuffer := (hs.arrays ha).body.buffer
  have ha' := hs.isArray_kept ha hk fun _ => hs.ne_buffer (hs.arrays ha).type hbuffer
  have hb' := (hs'.arrays ha').body
  have hstored := hb'.runOn_storage hs'.registry (.refl h')
  have hget := runOn_get hs' ha' hi hshows
  cases hstores with
  | reference storage =>
    have hstorage : f.flags.storage = .references :=
      congrArg Prod.fst (Except.ok.inj (congrArg Prod.fst (hstored.symm.trans storage)))
    have hother : ArrayObject.storage h' a = .ok .references := by rw [storage_of_isArray hs' ha', hstorage]
    exact ⟨fun _ => Action.runOn_bind_ok hget, fun hne => absurd hother hne, fun hne => absurd hother hne⟩
  | @bits storage m t' bs stored inPlace type payload =>
    have hstorage : f.flags.storage = storage :=
      congrArg Prod.fst (Except.ok.inj (congrArg Prod.fst (hstored.symm.trans stored)))
    rw [← hstorage] at inPlace
    cases (hk.typeOf ht).symm.trans type
    obtain ⟨n, hbits, rfl⟩ := hshows.elementBits
    obtain ⟨l, hl, hisBits, hsize, -⟩ := hbits.layout hb'
    have hne := hs'.ne_buffer_of_isBits (hk.typeOf ht) hl hisBits (hk.typeOf hbuffer)
    have hkept := hs.payload_kept hs' hk (live_of_typeOf ht) fun _ => hne
    have hword {m : Nat} (hm : h.objectSize x = .ok m) : m = n := by
      have hm := hk.size? (objectSize_eq_ok.1 hm)
      rw [← hsize]
      exact Option.some.inj (hm.symm.trans (hs'.size_bits (hk.typeOf ht) hl hisBits))
    obtain ⟨hmade, hfull⟩ := getValue_copies hs' ha' hi hbits
    refine ⟨fun hreferences => absurd (Except.ok.inj ((storage_of_isArray hs' ha').symm.trans hreferences)) inPlace,
      fun _ m hm hroom => ?_, fun _ m hm hlimit => ?_⟩
    · obtain rfl := hword hm
      obtain ⟨v, h'', hrun, hcopy⟩ := hmade hroom
      refine ⟨v, h'', hrun, hcopy.fresh, hcopy.type.trans ht.symm, ?_, getValue_unharmed hs' hrun⟩
      rw [hcopy.payload, ← payload, hkept]
    · obtain rfl := hword hm
      obtain ⟨h'', hrun⟩ := hfull hlimit
      exact ⟨h'', hrun, getValue_unharmed hs' hrun⟩

/-- The array decides by the type of the value, and reads back what it took. -/
theorem set_decided (hs : h.Sound) (hbelow : h.types.BelowAbstract) (ha : h.IsArray a f) (hi : i < f.length)
    (ht : h.typeOf x = .ok t) :
    (h.types.isa t f.elem = .ok true ∧ ∃ h', (set a i x).runOn h = (.ok ⟨⟩, h') ∧ ReadBack h h' a i x) ∨
    (h.types.isa t f.elem = .ok false ∧ (set a i x).runOn h = (.error (h.types.mismatch f.elem t), h)) := by
  obtain ⟨d, hd, hkind⟩ := hs.kind_of_object ht
  obtain ⟨e, he⟩ := (hs.arrays ha).body.exists_descriptor hs
  obtain ⟨b, hb, -⟩ := TypeTable.isaWithin_atom hs.registry.types hbelow hd hkind he (Nat.le_refl _)
  cases b with
  | false => exact .inr ⟨hb, set_rejects hs hbelow ha hi ht hb⟩
  | true =>
    obtain ⟨xs, hx⟩ := exists_holds (hs.arrays ha).body
    obtain ⟨_, h', hrun, e, hstores, hholds⟩ := set_accepts hs hbelow ha hx hi ht hb
    have hpath := (set_meets (S := fun w _ => w = f.buffer) hs (fun hg _ => by rw [ha.unique hg]) i x).kept
    rw [hrun] at hpath
    have hshows := hholds.shows i _ (List.getElem?_set_self (by rw [hx.length]; exact hi))
    exact .inl ⟨hb, h', hrun, readBack hs ha ht hi hpath hstores hshows⟩

/-- A store in a slot in use that fails is one of a value that does not fit, and has changed nothing. -/
theorem set_refuses (hs : h.Sound) (hbelow : h.types.BelowAbstract) (ha : h.IsArray a f) (hi : i < f.length)
    (x : Value) :
    Ends (set a i x) h (fun _ _ => h.isa x f.elem = .ok true) fun h' => h' = h ∧ h.isa x f.elem ≠ .ok true := by
  cases ht : h.typeOf x with
  | error e =>
    have hunfit : h.isa x f.elem ≠ .ok true := by
      rw [Heap.isa, ht]
      nofun
    have hsame : h = h ∧ h.isa x f.elem ≠ .ok true := ⟨rfl, hunfit⟩
    unfold set
    refine Ends.look_bind hsame fun g _ => Ends.lift_bind hsame fun _ _ => Ends.look_bind hsame fun t ht' => ?_
    rw [ht] at ht'
    cases ht'
  | ok t =>
    have hisa : h.isa x f.elem = h.types.isa t f.elem := by
      rw [Heap.isa, ht]
      rfl
    rw [hisa]
    rcases set_decided hs hbelow ha hi ht with ⟨hfits, h', hset, -⟩ | ⟨hother, hset⟩
    · exact .of_ok hset hfits
    · exact .of_error hset ⟨rfl, by rw [hother]; nofun⟩

end ArrayObject

end TypedHeap
