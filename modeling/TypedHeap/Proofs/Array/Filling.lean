import TypedHeap.Proofs.Array.Vector
import TypedHeap.Proofs.Heap.Room

/-!
# New vectors and what is put in them

A vector is made if there is room for it and for its buffer. It takes every value of its element type, and
every scalar of its element type without a box.

* `ArrayObject.elementStorage_references_yields`, `elementStorage_scalar_yields`: how elements are stored.
* `ArrayObject.vectorDemand`: what a vector takes.
* `ArrayObject.Refilled`: nothing but the elements of a vector was changed.

Main results: `newVector_makes`, `set_yields`, `setScalar_yields`, `vector_makes`, `newVector_typed`.
-/

namespace TypedHeap

open TypedHeap.Action (Ends Yields)
open Heap ArrayObject

variable {h h' : Heap} {a x : Value} {f : ArrayInfo} {elem t : TypeRef} {i n slotSize : Nat} {d : Demand}
  {xs : List (Option Datum)} {storage : ElementStorage} {k : ScalarKind}

/-- What was stored in a vector stays there while other objects are made. -/
theorem Heap.VectorOf.made (hv : h.VectorOf a f xs) (hm : Made d h h') : h'.VectorOf a f xs :=
  hv.stays hm.sound hm.keeps

namespace ArrayObject

/-! ## Storage -/

/-- Elements of a type that may not be stored inline are references, if the type is no union. -/
theorem elementStorage_references_yields {c : Descriptor} (hc : h.types.descriptor elem = .ok c)
    (hout : c.mayBeInline = false) (hkind : c.kind ≠ .union) :
    Yields (elementStorage elem) h fun p h' => h.Learns h' ∧ p = (.references, refSize) := by
  have hinline : h.registry.Inline elem false := ⟨c, hc, .inl ⟨hout, rfl⟩⟩
  rw [elementStorage_eq]
  refine Yields.bind_ok (runOn_isInline hinline) ?_
  show Yields (wideStorage elem) h _
  unfold wideStorage
  refine Yields.bind_ok (Action.runOn_get h) (Yields.look_bind (f := fun _ => h.types.descriptor elem) hc ?_)
  rw [if_neg hkind]
  exact Yields.pure ⟨.refl h, rfl⟩

theorem elementStorage_any_yields (hs : h.Sound) :
    Yields (elementStorage Builtin.any) h fun p h' => h.Learns h' ∧ p = (.references, refSize) :=
  elementStorage_references_yields (hs.builtin rfl) rfl (by decide)

/-- Scalars lie side by side. -/
theorem elementStorage_scalar_yields (ho : h.Orderly) (k : ScalarKind) :
    Yields (elementStorage k.type) h fun p h' => h.Learns h' ∧ p = (.flat, k.size) := by
  rw [elementStorage_eq]
  refine Yields.bind (isInline_scalar_yields ho k) fun b h₁ hdone => ?_
  obtain ⟨hl₁, rfl, -⟩ := hdone
  have ho₁ := (Made.learns ho.sound hl₁).orderly ho
  rw [if_pos rfl]
  refine Yields.bind (sizeOf_yields ho₁ (Layouts.laidOut_scalar ho₁.sound.registry.types ho₁.types k))
    fun n h₂ hdone => ?_
  obtain ⟨hl₂, rfl⟩ := hdone
  rw [if_pos (by cases k <;> decide)]
  exact Yields.pure ⟨hl₁.trans hl₂, rfl⟩

/-- Only one way to store elements is found out. -/
theorem storage_eq (hb : h.BodySound f) (hs : h.registry.Sound)
    (hstored : Yields (elementStorage f.elem) h fun p h' => h.Learns h' ∧ p = (storage, slotSize)) :
    f.flags.storage = storage := by
  obtain ⟨p, h', hrun, -, rfl⟩ := hstored
  rw [runOn_elementStorage hs hb.stored] at hrun
  cases hrun
  rfl

theorem default_eq_none {blank : Option Datum}
    (hstored : Yields (elementStorage elem) h fun p h' => h.Learns h' ∧ p = (.references, slotSize))
    (hblank : h.Default elem blank) : blank = none := by
  obtain ⟨p, h', hrun, -, rfl⟩ := hstored
  cases hblank with
  | references => rfl
  | flat storage | selected storage =>
    rw [hrun] at storage
    cases storage

/-! ## Changing elements -/

/-- The elements of a vector were changed, and nothing else. -/
structure Refilled (f : ArrayInfo) (h h' : Heap) : Prop where
  rewrites : Rewrites (fun w _ => w = f.buffer) h h'
  symbols : h'.symbols = h.symbols

theorem Refilled.refl (f : ArrayInfo) (h : Heap) : Refilled f h h := ⟨.refl _ h, rfl⟩

theorem Refilled.trans {h'' : Heap} (hr : Refilled f h h') (hr' : Refilled f h' h'') : Refilled f h h'' :=
  ⟨hr.rewrites.trans hr'.rewrites, hr'.symbols.trans hr.symbols⟩

/-- A value is stored in a vector of references. -/
theorem set_yields (hv : h.VectorOf a f xs) (hi : i < xs.length) (hstorage : f.flags.storage = .references)
    (hx : h.isa x f.elem = .ok true) :
    Yields (set a i x) h fun _ h' => Refilled f h h' ∧ h'.VectorOf a f (xs.set i (some (.ref x))) := by
  have hs := hv.sound
  have hi : i < f.length := by rwa [← hv.holds.length]
  obtain ⟨s, hxs, hfits⟩ := isa_eq_ok.1 hx
  have hset : Yields (set a i x) h fun _ h' => Rewrites (Cells f i (i + 1)) h h' ∧ h'.symbols = h.symbols ∧
      h'.Stores f.elem x (.ref x) ∧ h'.Holds f (xs.set i (some (.ref x))) := by
    unfold set
    refine Yields.look_bind (hs.info_iff.2 hv.array) (Yields.look_bind (f := fun _ => f.checkIndex i)
      (ArrayInfo.checkIndex_eq_ok.2 hi) (Yields.look_bind hxs (Yields.look_bind
        (Buffer.start_eq_ok.2 ⟨hv.body.buffer, rfl⟩) ?_)))
    rw [hstorage]
    refine Yields.look_bind hfits ?_
    rw [if_neg (by decide), Nat.add_assoc]
    exact setReference_yields hs hv.array hv.holds hi hstorage (live_of_typeOf hxs)
  have hpath := (set_meets (S := fun _ _ => True) (a := a) hs (fun _ _ => trivial) i x).kept
  have harray := set_isArray hs hv.array i x
  obtain ⟨_, h', hrun, hr, hsymbols, -, hholds⟩ := hset
  rw [hrun] at hpath harray
  refine .of_ok hrun ⟨⟨hr.mono fun _ _ hin => hin.1, hsymbols⟩, hpath.sound hs, harray, hv.ndims, hv.unshared, hholds⟩

/-- A scalar is stored in a vector of scalars of its kind. -/
theorem setScalar_yields {c : k.Carrier} {bs : List UInt8} (hv : h.VectorOf a f xs) (hi : i < xs.length)
    (hstorage : f.flags.storage = .flat) (hc : f.elem = k.type)
    (hencode : (k.encode c).runOn h.symbols = (.ok bs, h.symbols)) :
    Yields (setScalar a i k c) h fun _ h' =>
      Refilled f h h' ∧ h'.VectorOf a f (xs.set i (some (.bits k.type bs))) := by
  have hs := hv.sound
  have hi : i < f.length := by rwa [← hv.holds.length]
  have hencoded : (encode k c).runOn h = (.ok bs, h) := by rw [runOn_encode, hencode]
  have hset : Yields (setScalar a i k c) h fun _ h' => Rewrites (Cells f i (i + 1)) h h' ∧
      h'.symbols = h.symbols ∧ h'.Holds f (xs.set i (some (.bits k.type bs))) := by
    unfold setScalar
    refine Yields.look_bind (hs.info_iff.2 hv.array) (Yields.look_bind (f := fun _ => f.checkIndex i)
      (ArrayInfo.checkIndex_eq_ok.2 hi) (Yields.look_bind
        (Buffer.start_eq_ok.2 ⟨hv.body.buffer, rfl⟩) ?_))
    rw [hstorage]
    dsimp only
    rw [if_neg (not_not_intro hc), Nat.add_assoc]
    refine Yields.bind_ok hencoded ?_
    exact setScalarFlat_yields hs hv.array hv.holds hi hstorage hc hencode
  have hpath := (setScalar_meets (S := fun _ _ => True) (a := a) ⟨hs, fun _ _ => trivial⟩ (fun _ _ => trivial) i k c).kept
  have harray := setScalar_isArray hs hv.array i k c
  obtain ⟨_, h', hrun, hr, hsymbols, hholds⟩ := hset
  rw [hrun] at hpath harray
  refine .of_ok hrun ⟨⟨hr.mono fun _ _ hin => hin.1, hsymbols⟩, hpath.sound hs, harray, hv.ndims, hv.unshared, hholds⟩

/-! ## New vectors -/

/-- What a vector of `n` elements takes, a buffer and the array. -/
def vectorDemand (n slotSize : Nat) : Demand :=
  .object (refSize + n * slotSize) ++ .object (ownerOffset 1 + refSize)

/-- There is no more room than a word can count. -/
theorem bufferSize_of_affords (ha : h.Affords (vectorDemand n slotSize)) (hplain : storage ≠ .selected) :
    bufferSize storage slotSize n = some (n * slotSize) ∧ n * slotSize ≤ maxWord := by
  have hfirst : h.Affords (.object (refSize + n * slotSize)) := ha.left
  have hroom : h.nextStart + (refSize + n * slotSize) ≤ h.limit := hfirst.room
  have hlimit : h.limit < 0x10000000000000000 := h.config.maxBytes.toNat_lt
  have hle : n * slotSize ≤ maxWord := by
    rw [maxWord]
    omega
  refine ⟨?_, hle⟩
  have hselectors : storage.selectorBytes n = 0 := by
    cases storage with
    | selected => exact absurd rfl hplain
    | _ => rfl
  show (inWord (n * slotSize) >>= fun data => inWord (data + storage.selectorBytes n)) = _
  rw [hselectors, inWord, if_pos hle]
  show inWord (n * slotSize) = _
  rw [inWord, if_pos hle]

/-- To find the type of an array and how its elements are stored is to learn about types and layouts. -/
theorem learns_of_stored {rank : Nat} {h₁ h₂ : Heap} (hs : h.Sound)
    (htype : (onTypes (TypeTable.arrayType elem rank)).runOn h = (.ok t, h₁))
    (hstored : (elementStorage elem).runOn h₁ = (.ok (storage, slotSize), h₂)) :
    h.Learns h₂ ∧ h₂.types.Applied Builtin.arrayFamily [.type elem, .int (Int64.ofNat rank)] t := by
  have hmeets := onTypes_meets (h := h) (TypeTable.arrayType_meets hs.registry.types elem rank)
  have hl₁ := hmeets.kept
  have ht := hmeets.answer t (by rw [htype])
  have hl₂ := (elementStorage_meets (h := h₁) elem).kept
  rw [htype] at hl₁ ht
  rw [hstored] at hl₂
  exact ⟨hl₁.trans hl₂, ht.extends hl₂.extends.registry.types⟩

/-- A new array is made if its extents are counted, its elements can be stored, and there is room for it and
for its buffer. -/
theorem new_yields {dims : List Nat} {h₁ h₂ : Heap} {size : Nat} (ho : h.Orderly)
    (hcount : elementCount dims = some n) (hrank : (Int64.ofNat dims.length).toInt = dims.length)
    (htype : (onTypes (TypeTable.arrayType elem dims.length)).runOn h = (.ok t, h₁))
    (hstored : (elementStorage elem).runOn h₁ = (.ok (storage, slotSize), h₂))
    (hsize : bufferSize storage slotSize n = some size)
    (ha : h.Affords (.object (refSize + size) ++ .object (ownerOffset dims.length + refSize))) :
    Yields (new elem dims) h fun a h' => ∃ (h₁ : Heap) (f : ArrayInfo),
      Made (.object (refSize + size) ++ .object (ownerOffset dims.length + refSize)) h h₁ ∧ h₁.typeOf a = .ok t ∧
        h' = h₁.putArray a f dims ∧ Writes (fun _ _ => True) h₁ h' := by
  obtain ⟨hl, ht₂⟩ := learns_of_stored ho.sound htype hstored
  have hm := Made.learns ho.sound hl
  have ho₂ := hm.orderly ho
  have ha₂ : h₂.Affords (.object (refSize + size) ++ .object (ownerOffset dims.length + refSize)) :=
    Affords.after (d := .nothing) ha hm
  unfold new
  rw [hcount]
  refine Yields.bind_ok htype (Yields.bind_ok hstored ?_)
  dsimp only
  rw [hsize]
  refine Yields.bind (allocate_buffer_makes ho₂ ha₂.left) fun buffer h₃ hdone => ?_
  obtain ⟨hm₃, -⟩ := hdone
  have ht₃ := ht₂.extends hm₃.keeps.registry.types
  refine Yields.bind (allocate_array_makes (hm₃.orderly ho₂) ht₃.stands hrank (ha₂.after hm₃)) fun a h₄ hdone => ?_
  obtain ⟨hm₄, hnew⟩ := hdone
  have harray := arrayType_of_new hnew (ht₃.extends hm₄.keeps.registry.types).stands
  have hend := hm₄.sound.end_le_top (hm₄.sound.size_array harray)
  refine Yields.bind_ok (runOn_writeAll hend) (Yields.pure ⟨h₄, _, hm.trans (hm₃.trans hm₄), hnew.type, rfl, ?_⟩)
  exact putArray_writes hm₄.sound harray fun _ => trivial

section NewVector

variable (ho : h.Orderly) (ht : h.types.Applied Builtin.arrayFamily [.type elem, .int (Int64.ofNat 1)] t)
  (hstored : Yields (elementStorage elem) h fun p h' => h.Learns h' ∧ p = (storage, slotSize))
  (hplain : storage ≠ .selected) (hpos : 0 < slotSize) (ha : h.Affords (vectorDemand n slotSize))

include ho ht hstored hplain hpos ha

theorem newVector_yields :
    Yields (newVector elem n) h fun a h' => ∃ (h₁ : Heap) (f : ArrayInfo),
      Made (vectorDemand n slotSize) h h₁ ∧ h₁.typeOf a = .ok t ∧ h' = h₁.putArray a f [n] ∧
        Writes (fun _ _ => True) h₁ h' := by
  obtain ⟨hsize, hle⟩ := bufferSize_of_affords ha hplain
  obtain ⟨p, h₁, hrun, -, rfl⟩ := hstored
  have hcount := elementCount_single (Nat.le_trans (Nat.le_mul_of_pos_right n hpos) hle)
  exact new_yields ho hcount rfl (runOn_onTypes_same ht.runOn_apply) hrun hsize ha

/-- A vector is made if there is room for it and for its buffer. -/
theorem newVector_makes :
    Makes (vectorDemand n slotSize) (newVector elem n) h fun a h' =>
      h'.typeOf a = .ok t ∧ ∃ f, NewArray h h' a elem [n] f := by
  have hmeets := newVector_meets (S := fun w _ => ¬h.Live w) ⟨ho.sound, fun hv _ => hv⟩ elem n
  refine ((newVector_yields ho ht hstored hplain hpos ha).ends (.of_meets hmeets)).mono fun a h' hdone => ?_
  obtain ⟨⟨h₁, f, hm, ht, rfl, hw⟩, hpath, hnew⟩ := hdone
  refine ⟨⟨hpath.sound ho.sound, ?_, hpath.keeps ho.sound, hw.top.trans hm.top, hw.config.trans hm.config, ?_⟩,
    hw.typeOf_iff.2 ht, hnew⟩
  · rw [hw.registry]
    exact hm.grows
  · rw [← hm.symbols]
    exact putWords_symbols

/-- A vector is made and filled. -/
theorem vector_makes {fill : Value → HeapM Unit}
    (hfill : ∀ {a f blank} {h' : Heap}, Made (vectorDemand n slotSize) h h' → f.elem = elem →
      h'.Default elem blank → h'.VectorOf a f (List.replicate n blank) →
        Yields (fill a) h' fun _ h'' => Refilled f h' h'' ∧ h''.VectorOf a f xs) :
    Makes (vectorDemand n slotSize) (do let a ← newVector elem n; fill a; return a) h fun a h' =>
      h'.typeOf a = .ok t ∧ ∃ f, h'.VectorOf a f xs := by
  refine Yields.bind (newVector_makes ho ht hstored hplain hpos ha) fun a h₁ hdone => ?_
  obtain ⟨hm, hta, f, hnew⟩ := hdone
  obtain ⟨blank, hblank, hv⟩ := hnew.vectorOf hm.sound
  refine Yields.bind (hfill hm hnew.elem hblank hv) fun _ h₂ hdone => Yields.pure ?_
  obtain ⟨hr, hv₂⟩ := hdone
  refine ⟨hm.rewrites hr.rewrites hv₂.sound ?_ hr.symbols, hr.rewrites.typeOf_iff.2 hta, f, hv₂⟩
  rintro w _ rfl
  exact hnew.freshBuffer

end NewVector

/-- A vector is an object of the type for vectors of such elements. -/
theorem newVector_typed (hs : h.Sound) (ht : h.types.Applied Builtin.arrayFamily [.type elem, .int (Int64.ofNat 1)] t)
    (n : Nat) : Ends (newVector elem n) h (fun a h' => h'.typeOf a = .ok t) fun _ => True := by
  have hready : Ready (fun _ _ => True) h := ⟨hs, fun _ _ => trivial⟩
  unfold newVector new
  cases hcount : elementCount [n] with
  | none => exact .throw _ trivial
  | some k =>
    refine Ends.bind_ok (runOn_onTypes_same ht.runOn_apply) ?_
    refine Ends.bind (Ends.of_meets (elementStorage_meets elem)).answers ?_
    rintro ⟨storage, slotSize⟩ h₁ ⟨hl, -⟩
    have hready₁ := hready.learns hl
    dsimp only
    cases hsize : bufferSize storage slotSize k with
    | none => exact .throw _ trivial
    | some size =>
      refine Ends.bind (Ends.of_meets (Buffer.new_meets hready₁ size)).answers ?_
      rintro buffer h₂ ⟨hp₂, -⟩
      have hready₂ := hready₁.along hp₂
      refine Ends.bind (Ends.of_meets (allocate_meets hready₂ t 1)).answers ?_
      rintro a h₃ ⟨hp₃, ha⟩
      have hs₃ := hp₃.sound hready₂.sound
      have htype : h₃.ArrayType a elem 1 := by
        refine arrayType_of_new ha ((ht.stands.extends hl.extends.registry.types).extends ?_)
        exact (hp₂.keeps hready₁.sound).registry.types.trans (hp₃.keeps hready₂.sound).registry.types
      have hend := hs₃.end_le_top (hs₃.size_array htype)
      refine Ends.bind_ok (runOn_writeAll hend) (.of_ok (Action.runOn_pure a _) ?_)
      exact (putArray_writes hs₃ htype fun _ => trivial : Writes (fun _ _ => True) _ _).typeOf_iff.2 ha.type
end ArrayObject

end TypedHeap
