import TypedHeap.Proofs.Heap.Normal
import TypedHeap.Proofs.Heap.Room

/-!
# Payload sizes

How large an object is depends on its type, and for strings, buffers and simple vectors on the length that is
asked for. An allocation finds that size first, and then asks for room.

* `Heap.Takes`: the size that a type and a length say.
* `Heap.SameTypes`, `allocate_sameTypes`: an allocation registers no type.
* `Takes.runOn_allocate`, `runOn_allocate_unsized`: allocations with and without a size.
* `Heap.copied`, `Heap.Copy`: a new object with bits that lie in another one.

Main results: `takes_of_payloadSize`, `Takes.payloadSize`, `Takes.allocates`, `Sound.copies`.
-/

namespace TypedHeap

/-- A type that has a layout has objects of its own. -/
theorem Layouts.Describes.concrete {tt : TypeTable} {m : LayoutMemo} {d : Descriptor} {l : Layout} (hdesc : Layouts.Describes tt m d l) :
    d.kind ≠ .abstract ∧ d.kind ≠ .union := by
  unfold Layouts.Describes at hdesc
  constructor <;> intro hkind <;> rw [hkind] at hdesc <;> exact hdesc

namespace Heap

open TypedHeap.Action (Meets runOn_bind_ok runOn_bind_error runOn_get)

variable {h h' : Heap} {v w x : Value} {t : TypeRef} {d : Descriptor} {l : Layout} {n m k extra : Nat}

/-- The bytes that an object of a type takes, given its number of bytes, elements or dimensions. Sizes that
depend on that number have to fit in a word; the others are the sizes of layouts. -/
inductive Takes (h : Heap) (t : TypeRef) (extra : Nat) : Nat → Prop
  | bytes {d : Descriptor} (descriptor : h.types.descriptor t = .ok d) (kind : d.kind = .string ∨ d.kind = .buffer)
      (small : refSize + extra ≤ maxWord) : Takes h t extra (refSize + extra)
  | slots {d : Descriptor} (descriptor : h.types.descriptor t = .ok d) (kind : d.kind = .simpleVector)
      (small : refSize * extra + refSize ≤ maxWord) : Takes h t extra (refSize * extra + refSize)
  | array {d : Descriptor} {elem : TypeRef} {rank : Int64} {n : Nat} (descriptor : h.types.descriptor t = .ok d)
      (kind : d.kind = .array) (params : d.params = [.type elem, .int rank]) (same : rank.toInt = extra)
      (size : ((sizeOf t).runOn h).1 = .ok n) : Takes h t extra n
  | fixed {d : Descriptor} {n : Nat} (descriptor : h.types.descriptor t = .ok d)
      (kind : d.kind.isVariableSize = false) (concrete : d.kind ≠ .abstract ∧ d.kind ≠ .union) (none : extra = 0)
      (size : ((sizeOf t).runOn h).1 = .ok n) : Takes h t extra n

theorem runOn_checkedSize (n : Nat) (h : Heap) : (checkedSize n).runOn h =
    (if n ≤ maxWord then .ok n else .error (.outOfMemory maxWord h.limit), h) := by
  unfold checkedSize
  split <;> rfl

theorem checkedSize_eq_ok : ((checkedSize n).runOn h).1 = .ok m ↔ n ≤ maxWord ∧ m = n := by
  rw [runOn_checkedSize]
  split
  · rename_i hle
    exact ⟨fun heq => ⟨hle, (Except.ok.inj heq).symm⟩, fun heq => congrArg Except.ok heq.2.symm⟩
  · rename_i hlt
    exact ⟨nofun, fun heq => absurd heq.1 hlt⟩

/-- A size that is found is the one that the type says. -/
theorem takes_of_payloadSize (hs : h.Sound) (hd : h.types.descriptor t = .ok d)
    (hn : ((payloadSize d extra).runOn h).1 = .ok n) : h.Takes t extra n := by
  have hsize : Meets Learns (sizeOf d.ref) h fun n _ => ((sizeOf t).runOn h).1 = .ok n := by
    rw [hs.registry.types.ref_eq hd]
    exact ⟨(sizeOf_meets t).kept, fun _ => id⟩
  suffices hmeets : Meets Learns (payloadSize d extra) h fun n _ => h.Takes t extra n from hmeets.answer n hn
  unfold payloadSize
  cases hkind : d.kind
  case string => exact (checkedSize_meets _).mono fun n _ _ ⟨heq, hle, _⟩ => heq ▸ .bytes hd (.inl hkind) hle
  case buffer => exact (checkedSize_meets _).mono fun n _ _ ⟨heq, hle, _⟩ => heq ▸ .bytes hd (.inr hkind) hle
  case simpleVector => exact (checkedSize_meets _).mono fun n _ _ ⟨heq, hle, _⟩ => heq ▸ .slots hd hkind hle
  case array =>
    obtain ⟨elem, rank, hparams, -⟩ := hs.registry.types.array hd hkind
    refine Meets.lift_bind fun p hp => Meets.guard fun hrank => hsize.mono fun n _ _ hn => ?_
    rw [hparams] at hp
    cases hp
    exact .array hd hkind hparams (Decidable.not_not.1 hrank) hn
  case abstract => exact Meets.get_bind (Meets.lift_bind fun _ _ => Meets.throw _)
  case union => exact Meets.get_bind (Meets.lift_bind fun _ _ => Meets.throw _)
  all_goals
    refine Meets.guard fun hextra => hsize.mono fun n _ _ hn => ?_
    exact .fixed hd (by rw [hkind]; rfl) (by simp [hkind]) (Decidable.not_not.1 hextra) hn

/-- Nothing keeps a size from being found that a type says. -/
theorem Takes.payloadSize (hn : h.Takes t extra n) (hs : h.Sound) :
    ∃ d, h.types.descriptor t = .ok d ∧ ((payloadSize d extra).runOn h).1 = .ok n := by
  have href {d : Descriptor} (hd : h.types.descriptor t = .ok d) : d.ref = t := hs.registry.types.ref_eq hd
  cases hn with
  | @bytes d descriptor kind small =>
    refine ⟨d, descriptor, ?_⟩
    unfold Heap.payloadSize
    rcases kind with kind | kind <;> rw [kind] <;> exact checkedSize_eq_ok.2 ⟨small, rfl⟩
  | @slots d descriptor kind small =>
    refine ⟨d, descriptor, ?_⟩
    unfold Heap.payloadSize
    rw [kind]
    exact checkedSize_eq_ok.2 ⟨small, rfl⟩
  | @array d elem rank n descriptor kind params same size =>
    refine ⟨d, descriptor, ?_⟩
    have hrank : ((TypeParam.int rank).int?.getD (-1)) = (extra : Int) := same
    unfold Heap.payloadSize
    rw [kind, params, href descriptor]
    show ((if (TypeParam.int rank).int?.getD (-1) ≠ (extra : Int) then _ else _ : HeapM Nat).runOn h).1 = _
    rw [if_neg (not_not_intro hrank)]
    exact size
  | @fixed d n descriptor kind concrete none size =>
    refine ⟨d, descriptor, ?_⟩
    unfold Heap.payloadSize
    rw [href descriptor, if_neg (not_not_intro none)]
    cases hkind : d.kind <;> rw [hkind] at kind concrete
    case abstract => exact absurd rfl concrete.1
    case union => exact absurd rfl concrete.2
    case string | buffer | simpleVector | array => cases kind
    all_goals exact size

/-- A type takes one size. -/
theorem Takes.unique (hn : h.Takes t extra n) (hm : h.Takes t extra m) (hs : h.Sound) : m = n := by
  obtain ⟨d, hd, hn⟩ := hn.payloadSize hs
  obtain ⟨e, he, hm⟩ := hm.payloadSize hs
  cases hd.symm.trans he
  exact Except.ok.inj (hm.symm.trans hn)

/-- What is learned about types on the way leaves the place of the next object as it is. -/
theorem Learns.nextStart_eq (hl : h.Learns h') : h'.nextStart = h.nextStart ∧ h'.limit = h.limit := by
  obtain ⟨r, -, rfl⟩ := hl
  exact ⟨rfl, rfl⟩

/-! ## Types -/

/-- The same types are registered. -/
def SameTypes (h h' : Heap) : Prop := h'.types = h.types

instance : Std.Refl SameTypes := ⟨fun _ => rfl⟩

instance : Trans SameTypes SameTypes SameTypes := ⟨fun hsame hsame' => Eq.trans hsame' hsame⟩

theorem sizeOf_sameTypes (t : TypeRef) : Meets SameTypes (sizeOf t) h fun _ _ => True := by
  refine ⟨?_, fun _ _ => trivial⟩
  show ((Registry.sizeOf t).runOn h.registry).2.table = h.registry.table
  have hlayout : ((Registry.layout t).runOn h.registry).2.table = h.registry.table := rfl
  unfold Registry.sizeOf
  rcases hrun : (Registry.layout t).runOn h.registry with ⟨e | l, r⟩
  · rw [hrun] at hlayout
    rw [runOn_bind_error hrun]
    exact hlayout
  · rw [hrun] at hlayout
    rw [runOn_bind_ok hrun]
    exact hlayout

theorem payloadSize_sameTypes (d : Descriptor) (extra : Nat) :
    Meets SameTypes (payloadSize d extra) h fun _ _ => True := by
  have hchecked (n : Nat) : Meets SameTypes (checkedSize n) h fun _ _ => True :=
    .of_runOn (runOn_checkedSize n h) rfl fun _ _ => trivial
  have hsize := sizeOf_sameTypes (h := h) d.ref
  unfold payloadSize
  cases d.kind
  case string | buffer => exact hchecked _
  case simpleVector => exact hchecked _
  case array => exact Meets.lift_bind fun _ _ => Meets.guard fun _ => hsize
  case abstract | union => exact Meets.get_bind (Meets.lift_bind fun _ _ => Meets.throw _)
  all_goals exact Meets.guard fun _ => hsize

theorem writeBytes_sameTypes (off : Nat) (bs : List UInt8) : Meets SameTypes (writeBytes off bs) h fun _ _ => True :=
  Meets.look_bind fun _ _ => Meets.change rfl trivial

/-- An allocation registers no type. -/
theorem allocate_sameTypes (t : TypeRef) (extra : Nat) : Meets SameTypes (allocate t extra) h fun _ _ => True := by
  unfold allocate
  refine Meets.get_bind (Meets.lift_bind fun d _ => Meets.bind (payloadSize_sameTypes d extra) fun n h₁ _ _ => ?_)
  refine Meets.get_bind (Meets.bind (P := fun _ _ => True) ?_ fun _ h₂ _ _ => ?_)
  · refine Meets.get_bind (Meets.guard fun _ => Meets.ite (fun _ => ?_) fun _ => Meets.pure trivial)
    exact .of_runOn rfl rfl fun _ _ => trivial
  · split
    · exact Meets.throw _
    · refine Meets.change_bind rfl (Meets.bind (writeBytes_sameTypes _ _) fun _ _ _ _ => ?_)
      split
      · exact Meets.bind (writeBytes_sameTypes _ _) fun _ _ _ _ => Meets.pure trivial
      · exact Meets.pure trivial

/-! ## Allocation -/

theorem runOn_allocate (hd : h.types.descriptor t = .ok d) :
    (allocate t extra).runOn h = (Heap.payloadSize d extra >>= place d t extra).runOn h := by
  rw [allocate_eq, runOn_bind_ok (runOn_get h), hd]
  rfl

/-- Once the size is known, the object is placed. -/
theorem Takes.runOn_allocate (hn : h.Takes t extra n) (hs : h.Sound) : ∃ d h₁, h.Learns h₁ ∧
    h₁.types.descriptor t = .ok d ∧ h₁.SizeFor d extra n ∧
      (allocate t extra).runOn h = (place d t extra n).runOn h₁ := by
  obtain ⟨d, hd, hsize⟩ := hn.payloadSize hs
  have hmeets := payloadSize_meets (h := h) d extra
  have hrun : (Heap.payloadSize d extra).runOn h = (.ok n, ((Heap.payloadSize d extra).runOn h).2) := Prod.ext hsize rfl
  refine ⟨d, _, hmeets.kept, hmeets.kept.extends.descriptor hd, hmeets.answer n hsize, ?_⟩
  rw [Heap.runOn_allocate hd, runOn_bind_ok hrun]

/-- An object is made if there is room for it, and only then. -/
theorem Takes.allocates (hn : h.Takes t extra n) (hs : h.Sound) :
    (h.nextStart + n ≤ h.limit → ∃ v h', (allocate t extra).runOn h = (.ok v, h') ∧ h'.Sound ∧
      NewObject h h' v t extra) ∧
    (h.limit < h.nextStart + n → ∃ h', h.Learns h' ∧
      (allocate t extra).runOn h = (.error (.outOfMemory (min (n + headerSize) maxWord) h.limit), h')) := by
  obtain ⟨d, h₁, hl, hd, hsize, hrun⟩ := hn.runOn_allocate hs
  obtain ⟨hstart, hlimit⟩ := hl.nextStart_eq
  have hs₁ := hs.learns hl
  rw [hrun, ← hstart, ← hlimit]
  refine ⟨fun hroom => ?_, fun hfull => ⟨h₁, hl, runOn_place_error hfull⟩⟩
  obtain ⟨v, hv, hplace⟩ := runOn_place (hs₁.registry.types.ref_eq hd) (fun hlength => (hsize.word_lt hlength).2) hroom
  have hend : v.offset + n ≤ h₁.limit := hv ▸ hroom
  exact ⟨v, _, hplace, hs₁.allocated hd hsize hv hend, newObject_allocated hs hl hd hsize hv hend⟩

/-- Without a size nothing is placed. -/
theorem runOn_allocate_unsized (hs : h.Sound) (hnone : ∀ n, ¬h.Takes t extra n) :
    ∃ e h₁, h.Learns h₁ ∧ (allocate t extra).runOn h = (.error e, h₁) := by
  cases hd : h.types.descriptor t with
  | error e =>
    refine ⟨e, h, .refl h, ?_⟩
    rw [allocate_eq, runOn_bind_ok (runOn_get h), hd]
    rfl
  | ok d =>
    have hmeets := payloadSize_meets (h := h) d extra
    rcases hsize : ((payloadSize d extra).runOn h).1 with e | n
    · have hrun : (payloadSize d extra).runOn h = (.error e, ((payloadSize d extra).runOn h).2) := Prod.ext hsize rfl
      exact ⟨e, _, hmeets.kept, by rw [runOn_allocate hd, runOn_bind_error hrun]⟩
    · exact absurd (takes_of_payloadSize hs hd hsize) (hnone n)

/-- What was made had a size, and there was room for it. -/
theorem Sound.room_of_allocate (hs : h.Sound) (hrun : (allocate t extra).runOn h = (.ok v, h')) :
    ∃ n, h.Takes t extra n ∧ h.nextStart + n ≤ h.limit := by
  by_cases hsized : ∃ n, h.Takes t extra n
  · obtain ⟨n, hn⟩ := hsized
    refine ⟨n, hn, Nat.not_lt.1 fun hfull => ?_⟩
    obtain ⟨h₁, -, herror⟩ := (hn.allocates hs).2 hfull
    cases herror.symm.trans hrun
  · obtain ⟨e, h₁, -, herror⟩ := runOn_allocate_unsized hs (not_exists.1 hsized)
    cases herror.symm.trans hrun

/-- No symbol is listed for an object. -/
theorem Sound.symbols_of_allocate (hs : h.Sound) (hrun : (allocate t extra).runOn h = (.ok v, h')) :
    h'.symbols = h.symbols := by
  obtain ⟨n, hn, hroom⟩ := hs.room_of_allocate hrun
  obtain ⟨d, h₁, hl, hd, hsize, hplaced⟩ := hn.runOn_allocate hs
  obtain ⟨hstart, hlimit⟩ := hl.nextStart_eq
  obtain ⟨w, -, hplace⟩ := runOn_place ((hs.learns hl).registry.types.ref_eq hd)
    (fun hlength => (hsize.word_lt hlength).2) (by rwa [hstart, hlimit])
  cases (hplace.symm.trans hplaced.symm).trans hrun
  rw [allocated_symbols, hl.symbols]

/-- A buffer takes a word more than its bytes. -/
theorem Takes.eq_of_buffer (hn : h.Takes t extra n) (hd : h.types.descriptor t = .ok d) (hkind : d.kind = .buffer) :
    n = refSize + extra := by
  cases hn with
  | bytes => rfl
  | slots hd' hkind' | array hd' hkind' | fixed hd' hkind' =>
    cases hd.symm.trans hd'
    rw [hkind] at hkind'
    cases hkind'

/-- An array takes a word for each dimension, and five others. -/
theorem Takes.eq_of_array {elem : TypeRef} {ndims : Int64} (hn : h.Takes t extra n) (ho : h.Orderly)
    (ht : h.types.Stands Builtin.arrayFamily [.type elem, .int ndims] t) (hndims : ndims.toInt = extra) :
    n = ownerOffset extra + refSize := by
  have hl := Layouts.laidOut_array ho.types ht
  obtain ⟨p, h', hrun, -, rfl⟩ := sizeOf_yields ho hl
  obtain ⟨c, hc, hfamily, hparams⟩ := ht
  have hkind : c.kind = .array := by
    rw [Descriptor.kind, hfamily]
    rfl
  cases hn with
  | bytes hc' hkind' =>
    cases hc.symm.trans hc'
    rw [hkind] at hkind'
    rcases hkind' with hkind' | hkind' <;> cases hkind'
  | slots hc' hkind' | fixed hc' hkind' =>
    cases hc.symm.trans hc'
    rw [hkind] at hkind'
    cases hkind'
  | array _ _ _ _ hsize =>
    rw [hrun, hndims] at hsize
    exact (Except.ok.inj hsize).symm

/-! ## Objects of bits -/

/-- No object is of a union. -/
theorem Sound.kind_of_object (hs : h.Sound) (ht : h.typeOf x = .ok t) :
    ∃ d, h.types.descriptor t = .ok d ∧ d.kind ≠ .union := by
  obtain ⟨d, n, hd, -, hshape⟩ := hs.exists_shaped ht
  refine ⟨d, hd, fun hkind => ?_⟩
  unfold Shaped at hshape
  rw [hkind] at hshape
  exact hshape

/-- An object that is bits takes what its layout says. -/
theorem Sound.takes_bits (hs : h.Sound) (hl : h.registry.layouts.find? t = some l) (hbits : l.isBits = true) :
    h.Takes t 0 l.size := by
  obtain ⟨d, hd, hdesc⟩ := hs.registry.layouts.describes hl
  refine .fixed hd (isVariableSize_eq_false_iff.2 (kind_of_isBits hdesc hbits)) hdesc.concrete rfl ?_
  rw [runOn_sizeOf hs.registry ⟨l, hl, rfl⟩]

/-- An object that is overwritten as a whole holds what was written. -/
theorem payload_put {bs : List UInt8} (ha : h.Arena) (hn : h.size? v = some n) (hlen : bs.length = n) :
    (h.put v 0 bs).payload v = .ok bs := by
  have hend := ha.end_le hn
  have hwindow : (h.put v 0 bs).memory.window (v.offset + 0) n = bs :=
    window_put (by rw [hlen]; exact Nat.le_trans hend ha.reach) hlen
  refine bind_eq_ok.2 ⟨n, objectSize_eq_ok.2 ((size?_congr put_objects v).trans hn), ?_⟩
  rw [bytes_eq (by rw [put_top]; exact hend)]
  exact congrArg Except.ok hwindow

/-- A new object with bits that lie somewhere else. -/
def copied (t : TypeRef) (off n : Nat) : HeapM Value := do
  let box ← allocate t 0
  copyBytes off n box.offset
  return box

/-- An object was made with the given type and bits, and no symbol was listed. -/
structure Copy (h h' : Heap) (v : Value) (t : TypeRef) (bs : List UInt8) : Prop where
  sound : h'.Sound
  fresh : ¬h.Live v
  type : h'.typeOf v = .ok t
  payload : h'.payload v = .ok bs
  symbols : h'.symbols = h.symbols
  extension : h.Extends h'

/-- Bits that lie in an object are copied into a new one of their type, if there is room for it. -/
theorem Sound.copies (hs : h.Sound) (hl : h.registry.layouts.find? t = some l) (hbits : l.isBits = true)
    (hw : h.size? w = some n) (hend : k + l.size ≤ n) :
    (h.nextStart + l.size ≤ h.limit → ∃ v h', (copied t (w.offset + k) l.size).runOn h = (.ok v, h') ∧
      Copy h h' v t (h.memory.window (w.offset + k) l.size)) ∧
    (h.limit < h.nextStart + l.size → ∃ h', (copied t (w.offset + k) l.size).runOn h =
      (.error (.outOfMemory (min (l.size + headerSize) maxWord) h.limit), h')) := by
  have hlen := Memory.length_window h.memory (w.offset + k) l.size
  obtain ⟨hmade, hfull⟩ := (hs.takes_bits hl hbits).allocates hs
  refine ⟨fun hroom => ?_, fun hlimit => ?_⟩
  · obtain ⟨v, h₁, hrun, hs₁, hnew⟩ := hmade hroom
    have hl₁ := hnew.kept.registry.layouts hl
    have hn := hs₁.size_bits hnew.type hl₁ hbits
    have hsource := hs₁.end_le_top (hnew.kept.size? hw)
    have hcopy : (copyBytes (w.offset + k) l.size (v.offset + 0)).runOn h₁ = _ :=
      runOn_copyBytes (by omega) (hs₁.end_le_top hn)
    have hsame : h₁.memory.window (w.offset + k) l.size = h.memory.window (w.offset + k) l.size :=
      window_eq_of_byte_eq fun j hj => hnew.kept.bytes hw (by omega) id
    have hput := Rewrites.put (S := fun w _ => w = v) (k := 0) hs₁.arena hn (Nat.le_of_eq (by rw [hlen, Nat.zero_add]))
      fun _ _ _ => rfl
    rw [hsame] at hcopy
    refine ⟨v, _, (Action.runOn_bind_ok hrun).trans ((Action.runOn_bind_ok hcopy).trans rfl),
      hs₁.put_bits hnew.type hl₁ hbits hlen, hnew.fresh, hput.typeOf_iff.2 hnew.type, payload_put hs₁.arena hn hlen,
      ?_, hnew.kept.toExtends.trans hput.extends⟩
    rw [put_symbols, hs.symbols_of_allocate hrun]
  · obtain ⟨h₁, -, hrun⟩ := hfull hlimit
    exact ⟨h₁, Action.runOn_bind_error hrun⟩

end Heap

end TypedHeap
