import TypedHeap.Object.SimpleVector
import TypedHeap.Proofs.Array.Body

/-!
# Sound heaps

What holds of every heap between two operations, and at every point where an operation may fail.

* `Heap.Shaped`: an object is as large as its type wants it.
* `Heap.Sound`: the registry is sound, objects lie apart and have the sizes of their types, references
  fit where they are stored, and arrays are as they say.

Main results: the sizes of objects by type (`Sound.size_buffer`, `size_bits`, `size_array`, …),
`Sound.info_iff`, and what keeps a heap sound: `Sound.learns`, `Sound.put` for objects without a
buffer, `Sound.rewrites` for arrays and their buffers.
-/

namespace TypedHeap.Heap

open ArrayObject

variable {h h' : Heap} {a v w : Value} {f g : ArrayInfo} {t elem : TypeRef} {d : Descriptor} {l : Layout}
  {n m k rank : Nat} {S : Value → Nat → Prop}

/-! ## Soundness -/

/-- A payload has the size that its type asks for, given the length in front of it if it has one. -/
def Shaped (h : Heap) (v : Value) (t : TypeRef) (d : Descriptor) (n : Nat) : Prop :=
  match d.kind with
  | .abstract | .union => False
  | .string | .buffer => n = refSize + h.word v 0
  | .simpleVector => refSize + refSize * h.word v 0 ≤ n
  | .primitive .. | .struct | .tuple | .array =>
    ∃ l, h.registry.layouts.find? t = some l ∧ n = l.size

/-- What holds of every heap that operations lead to. -/
structure Sound (h : Heap) : Prop where
  registry : h.registry.Sound
  arena : h.Arena
  shaped : ∀ {v n}, h.size? v = some n →
    ∃ t d, h.typeOf v = .ok t ∧ h.types.descriptor t = .ok d ∧ h.Shaped v t d n
  /-- A field that is no bits holds nothing or a reference of its type. -/
  fields : ∀ {v t l} {f : FieldLayout}, h.typeOf v = .ok t →
    h.registry.layouts.find? t = some l → f ∈ l.fields → f.isInline = false → h.Fits v f.offset f.type
  arrays : ∀ {a f}, h.IsArray a f → h.ArraySound a f
  /-- Arrays that share a buffer know it and describe it alike. -/
  sharing : ∀ {a f b g}, h.IsArray a f → h.IsArray b g → g.buffer = f.buffer →
    b = a ∨ f.Shares g

theorem sound_fresh (config : HeapConfig) (barrier : Barrier) : (fresh config barrier).Sound where
  registry := Registry.sound_fresh
  arena := arena_fresh config barrier
  shaped := nofun
  fields ht := by
    obtain ⟨n, hn⟩ := live_of_typeOf ht
    cases hn
  arrays ha := by
    obtain ⟨_, _, _, _, ht, -⟩ := ha.type
    obtain ⟨n, hn⟩ := live_of_typeOf ht
    cases hn
  sharing ha := by
    obtain ⟨_, _, _, _, ht, -⟩ := ha.type
    obtain ⟨n, hn⟩ := live_of_typeOf ht
    cases hn

theorem Shaped.congr (hshape : h.Shaped v t d n) (he : h.Extends h')
    (hlength : hasLength d.kind = true → h'.word v 0 = h.word v 0 ∨
      d.kind = .simpleVector ∧ h'.word v 0 ≤ h.word v 0) : h'.Shaped v t d n := by
  unfold Shaped at hshape ⊢
  cases hkind : d.kind <;> simp only [hkind] at hshape hlength ⊢
  case string => rw [(hlength rfl).resolve_right (by simp)]; exact hshape
  case buffer => rw [(hlength rfl).resolve_right (by simp)]; exact hshape
  case simpleVector =>
    have hle : h'.word v 0 ≤ h.word v 0 := by
      rcases hlength rfl with heq | ⟨-, hle⟩
      · exact Nat.le_of_eq heq
      · exact hle
    exact Nat.le_trans (Nat.add_le_add_left (Nat.mul_le_mul_left _ hle) _) hshape
  all_goals
    obtain ⟨l, hl, hn⟩ := hshape
    exact ⟨l, he.registry.layouts hl, hn⟩

/-- An object with a length has room for the word that says it. -/
theorem Shaped.le_of_hasLength (hshape : h.Shaped v t d n) (hlength : hasLength d.kind = true) :
    refSize ≤ n := by
  unfold Shaped at hshape
  cases hkind : d.kind <;> rw [hkind] at hshape hlength
  case string | buffer =>
    have heq : n = refSize + h.word v 0 := hshape
    omega
  case simpleVector =>
    have hle : refSize + refSize * h.word v 0 ≤ n := hshape
    omega
  all_goals cases hlength

namespace Sound

/-! ## Types and sizes -/

theorem exists_shaped (hs : h.Sound) (ht : h.typeOf v = .ok t) :
    ∃ d n, h.types.descriptor t = .ok d ∧ h.size? v = some n ∧ h.Shaped v t d n := by
  obtain ⟨n, hn⟩ := live_of_typeOf ht
  obtain ⟨t', d, ht', hd, hshape⟩ := hs.shaped hn
  rw [ht] at ht'
  cases ht'
  exact ⟨d, n, hd, hn, hshape⟩

theorem shaped_of_typeOf (hs : h.Sound) (ht : h.typeOf v = .ok t) (hd : h.types.descriptor t = .ok d) :
    ∃ n, h.size? v = some n ∧ h.Shaped v t d n := by
  obtain ⟨d', n, hd', hn, hshape⟩ := hs.exists_shaped ht
  rw [hd] at hd'
  cases hd'
  exact ⟨n, hn, hshape⟩

theorem exists_typeOf (hs : h.Sound) (hv : h.Live v) : ∃ t, h.typeOf v = .ok t := by
  obtain ⟨n, hn⟩ := hv
  obtain ⟨t, -, ht, -⟩ := hs.shaped hn
  exact ⟨t, ht⟩

/-- Builtin types mean in every sound heap what they mean from the start. -/
theorem builtin (hs : h.Sound) (hd : TypeTable.builtin.descriptor t = .ok d) :
    h.types.descriptor t = .ok d :=
  hs.registry.types.builtin.descriptor hd

theorem descriptor_string (hs : h.Sound) : h.types.descriptor Builtin.string =
    .ok ⟨Builtin.string, Builtin.family "String" .string, []⟩ :=
  hs.builtin rfl

theorem descriptor_simpleVector (hs : h.Sound) : h.types.descriptor Builtin.simpleVector =
    .ok ⟨Builtin.simpleVector, Builtin.family "SimpleVector" .simpleVector, []⟩ :=
  hs.builtin rfl

theorem descriptor_buffer (hs : h.Sound) : h.types.descriptor Builtin.buffer =
    .ok ⟨Builtin.buffer, Builtin.family "Buffer" .buffer, []⟩ :=
  hs.builtin rfl

theorem size_of_layout (hs : h.Sound) (ht : h.typeOf v = .ok t) (hd : h.types.descriptor t = .ok d)
    (hfixed : hasLength d.kind = false) (hl : h.registry.layouts.find? t = some l) :
    h.size? v = some l.size := by
  obtain ⟨n, hn, hshape⟩ := hs.shaped_of_typeOf ht hd
  unfold Shaped at hshape
  cases hkind : d.kind <;> simp only [hkind, hasLength] at hshape hfixed <;> try cases hfixed
  all_goals
    obtain ⟨k, hk, rfl⟩ := hshape
    rw [hl] at hk
    cases hk
    exact hn

/-- A type whose objects have a length of their own has a layout without fields. -/
theorem handle_of_hasLength {tt : TypeTable} {memo : LayoutMemo} (hdesc : Layouts.Describes tt memo d l)
    (hlength : hasLength d.kind = true) : l = Layout.handle refSize refSize [] := by
  unfold Layouts.Describes at hdesc
  cases hkind : d.kind <;> simp only [hkind, hasLength] at hdesc hlength <;>
    first
    | exact hdesc
    | cases hlength

/-- Arrays have no fields and are no bits. -/
theorem array_layout {tt : TypeTable} {memo : LayoutMemo} (hdesc : Layouts.Describes tt memo d l)
    (hkind : d.kind = .array) : l.fields = [] ∧ l.isBits = false := by
  unfold Layouts.Describes at hdesc
  rw [hkind] at hdesc
  obtain ⟨size, pointers, -, rfl⟩ := Layouts.exists_handle_of_array hdesc
  exact ⟨rfl, rfl⟩

/-- Objects that are bits are neither arrays nor have they a length of their own. -/
theorem kind_of_isBits {tt : TypeTable} {memo : LayoutMemo} (hdesc : Layouts.Describes tt memo d l)
    (hbits : l.isBits = true) : hasLength d.kind = false ∧ d.kind ≠ .array := by
  constructor
  · by_contra hlength
    rw [handle_of_hasLength hdesc (by simpa using hlength)] at hbits
    cases hbits
  · intro hkind
    rw [(array_layout hdesc hkind).2] at hbits
    cases hbits

/-- Neither are objects with fields. -/
theorem kind_of_field {f : FieldLayout} {tt : TypeTable} {memo : LayoutMemo}
    (hdesc : Layouts.Describes tt memo d l) (hf : f ∈ l.fields) :
    hasLength d.kind = false ∧ d.kind ≠ .array := by
  constructor
  · by_contra hlength
    rw [handle_of_hasLength hdesc (by simpa using hlength)] at hf
    cases hf
  · intro hkind
    rw [(array_layout hdesc hkind).1] at hf
    cases hf

/-- So objects whose layout says anything about what they hold are none of these. -/
theorem kind_of_contents {tt : TypeTable} {memo : LayoutMemo} (hdesc : Layouts.Describes tt memo d l)
    (hsome : l.isBits = true ∨ ∃ e, e ∈ l.fields) : hasLength d.kind = false ∧ d.kind ≠ .array := by
  rcases hsome with hbits | ⟨e, he⟩
  · exact kind_of_isBits hdesc hbits
  · exact kind_of_field hdesc he

/-- An object with fields is as large as its layout says. -/
theorem size_record {f : FieldLayout} (hs : h.Sound) (ht : h.typeOf v = .ok t)
    (hl : h.registry.layouts.find? t = some l) (hf : f ∈ l.fields) : h.size? v = some l.size := by
  obtain ⟨d, hd, hdesc⟩ := hs.registry.layouts.describes hl
  exact hs.size_of_layout ht hd (kind_of_field hdesc hf).1 hl

/-- An object that is bits is as large as its layout says. -/
theorem size_bits (hs : h.Sound) (ht : h.typeOf v = .ok t)
    (hl : h.registry.layouts.find? t = some l) (hbits : l.isBits = true) :
    h.size? v = some l.size := by
  obtain ⟨d, hd, hdesc⟩ := hs.registry.layouts.describes hl
  exact hs.size_of_layout ht hd (kind_of_isBits hdesc hbits).1 hl

theorem size_string (hs : h.Sound) (ht : h.typeOf v = .ok Builtin.string) :
    h.size? v = some (refSize + h.word v 0) := by
  obtain ⟨n, hn, rfl⟩ := hs.shaped_of_typeOf ht (hs.builtin rfl)
  exact hn

theorem size_buffer (hs : h.Sound) (ht : h.typeOf v = .ok Builtin.buffer) :
    h.size? v = some (refSize + h.word v 0) := by
  obtain ⟨n, hn, rfl⟩ := hs.shaped_of_typeOf ht (hs.builtin rfl)
  exact hn

theorem size_vector (hs : h.Sound) (ht : h.typeOf v = .ok Builtin.simpleVector) :
    ∃ n, h.size? v = some n ∧ refSize + refSize * h.word v 0 ≤ n :=
  hs.shaped_of_typeOf ht (hs.builtin rfl)

/-- An array has a word for each dimension and five more. -/
theorem size_array (hs : h.Sound) (ht : h.ArrayType a elem rank) :
    h.size? a = some (ownerOffset rank + refSize) := by
  obtain ⟨t, d, r, ht, hd, hkind, hparams, hr⟩ := ht
  obtain ⟨n, hn, hshape⟩ := hs.shaped_of_typeOf ht hd
  unfold Shaped at hshape
  rw [hkind] at hshape
  obtain ⟨l, hl, rfl⟩ := hshape
  obtain ⟨d', hd', hdesc⟩ := hs.registry.layouts.describes hl
  rw [show h.registry.table.descriptor t = .ok d from hd] at hd'
  cases hd'
  unfold Layouts.Describes at hdesc
  rw [hkind] at hdesc
  unfold Layouts.array at hdesc
  rw [hparams] at hdesc
  obtain ⟨p, hp, hdesc⟩ := bind_eq_ok.1 hdesc
  cases hp
  cases hdesc
  rw [hn]
  show some (ownerOffset r.toInt.toNat + refSize) = _
  rw [hr, Int.toNat_natCast]

theorem end_le_top (hs : h.Sound) (hn : h.size? v = some n) : v.offset + n ≤ h.top :=
  hs.arena.end_le hn

/-- Objects end at offsets that are words, because the limit of the heap is one. -/
theorem end_lt (hs : h.Sound) (hn : h.size? v = some n) : v.offset + n < 2 ^ 64 := by
  have hend := hs.end_le_top hn
  have hreach := hs.arena.reach
  have hlimit := hs.arena.limit
  have hmax : h.limit < 2 ^ 64 := h.config.maxBytes.toNat_lt
  omega

theorem payload_eq (hs : h.Sound) (hn : h.size? v = some n) :
    h.payload v = .ok (h.memory.window v.offset n) :=
  bind_eq_ok.2 ⟨n, objectSize_eq_ok.2 hn, bytes_eq (hs.end_le_top hn)⟩

/-- The payload of an object that nobody wrote to is what it was. -/
theorem payload_kept (hs : h.Sound) (hs' : h'.Sound) (hk : Keeps S h h') (hv : h.Live v)
    (hS : ∀ k, ¬S v k) : h'.payload v = h.payload v := by
  obtain ⟨n, hn⟩ := hv
  rw [hs.payload_eq hn, hs'.payload_eq (hk.size? hn)]
  exact congrArg Except.ok (Memory.window_congr fun k hk' => hk.bytes hn hk' (hS k))

/-- The words of an array are what it says about itself. -/
theorem info_iff (hs : h.Sound) : info h a = .ok f ↔ h.IsArray a f := by
  refine ⟨isArray_of_info hs.registry, fun ha => info_of_isArray ha ?_⟩
  obtain ⟨rank, htype⟩ := ha.type
  have := hs.end_le_top (hs.size_array htype)
  simp only [ownerOffset, refSize] at this
  omega

theorem readRef_buffer (hs : h.Sound) (ha : h.IsArray a f) :
    h.readRef (a.offset + bufferWord) = .ok (some f.buffer) := by
  obtain ⟨rank, htype⟩ := ha.type
  have := hs.end_le_top (hs.size_array htype)
  simp only [ownerOffset, refSize] at this
  rw [readRef_eq (by rw [bufferWord]; omega), ha.buffer]

theorem readRef_owner (hs : h.Sound) (ha : h.IsArray a f) :
    h.readRef (a.offset + ownerOffset f.flags.ndims) = .ok (some f.buffer) := by
  have := hs.end_le_top (hs.size_array (hs.arrays ha).type)
  rw [refSize] at this
  rw [readRef_eq (by omega), (hs.arrays ha).owner]

/-- An array whose words are kept is the same array. -/
theorem isArray_kept (hs : h.Sound) (ha : h.IsArray a f) (hk : Keeps S h h') (hS : ∀ j, ¬S a j) :
    h'.IsArray a f := by
  obtain ⟨rank, ht⟩ := ha.type
  refine ha.congr hk.toExtends fun k hle => hk.word_eq (hs.size_array ht) ?_ fun j _ _ => hS j
  simp only [capacityWord, ownerOffset, refSize] at hle ⊢
  omega

/-- So it is where nothing but layouts was computed. -/
theorem isArray_learns (hs : h.Sound) (ha : h.IsArray a f) (hl : h.Learns h') : h'.IsArray a f :=
  hs.isArray_kept ha (hl.keeps fun _ _ => False) fun _ => id

/-! ## Looking back -/

/-- The type of an object that was there is the type that it had. -/
theorem typeOf_of_live (hs : h.Sound) (he : h.Extends h') (hv : h.Live v) (ht : h'.typeOf v = .ok t) :
    h.typeOf v = .ok t := by
  obtain ⟨s, hs⟩ := hs.exists_typeOf hv
  rw [he.typeOf hs] at ht
  cases ht
  exact hs

theorem arrayType_of_live (hs : h.Sound) (he : h.Extends h') (hv : h.Live v)
    (ht : h'.ArrayType v elem rank) : h.ArrayType v elem rank := by
  obtain ⟨t, d, r, ht, hd, hkind, hparams, hr⟩ := ht
  have ht := hs.typeOf_of_live he hv ht
  obtain ⟨d', n, hd', -, -⟩ := hs.exists_shaped ht
  have heq := he.descriptor hd'
  rw [hd] at heq
  cases heq
  exact ⟨t, d, r, ht, hd', hkind, hparams, hr⟩

/-- An array that was there, and that nobody wrote to, is the array that it was. -/
theorem isArray_of_live (hs : h.Sound) (hk : Keeps S h h') (hv : h.Live a) (ha : h'.IsArray a f)
    (hS : ∀ k, ¬S a k) : h.IsArray a f := by
  obtain ⟨rank, ht⟩ := ha.type
  have ht := hs.arrayType_of_live hk.toExtends hv ht
  have hn := hs.size_array ht
  have hword (k : Nat) (hle : k ≤ capacityWord) : h'.word a k = h.word a k := by
    refine hk.word_eq hn ?_ fun j _ _ => hS j
    rw [capacityWord] at hle
    simp only [ownerOffset, refSize]
    omega
  refine ⟨⟨rank, ht⟩, ?_, ?_, ?_, ?_⟩
  · rw [slot, ← hword _ (by decide)]; exact ha.buffer
  · rw [← hword _ (by decide)]; exact ha.length
  · rw [← hword _ (by decide)]; exact ha.flags
  · rw [← hword _ (by decide)]; exact ha.capacity

/-! ## What keeps a heap sound -/

/-- The layout of an object with fields was remembered before. -/
theorem layout_of_learns {f : FieldLayout} (hs : h.Sound) (hl : h.Learns h') (ht : h.typeOf v = .ok t)
    (hlay : h'.registry.layouts.find? t = some l) (hf : f ∈ l.fields) :
    h.registry.layouts.find? t = some l := by
  have he := hl.extends
  obtain ⟨d, n, hd, hn, hshape⟩ := hs.exists_shaped ht
  obtain ⟨d', hd', hdesc⟩ := (hl.sound hs.registry).layouts.describes hlay
  rw [show h'.registry.table.descriptor t = .ok d from he.descriptor hd] at hd'
  cases hd'
  unfold Shaped at hshape
  cases hkind : d.kind <;> simp only [hkind] at hshape
  case string => rw [handle_of_hasLength hdesc (by rw [hkind]; rfl)] at hf; cases hf
  case buffer => rw [handle_of_hasLength hdesc (by rw [hkind]; rfl)] at hf; cases hf
  case simpleVector => rw [handle_of_hasLength hdesc (by rw [hkind]; rfl)] at hf; cases hf
  all_goals
    obtain ⟨l', hl', -⟩ := hshape
    have := he.registry.layouts hl'
    rw [hlay] at this
    cases this
    exact hl'

theorem learns (hs : h.Sound) (hl : h.Learns h') : h'.Sound := by
  have he := hl.extends
  have hlive {v : Value} {t : TypeRef} (ht : h'.typeOf v = .ok t) : h.Live v := by
    obtain ⟨n, hn⟩ := live_of_typeOf ht
    rw [hl.size?_eq] at hn
    exact ⟨n, hn⟩
  have harray {a : Value} {f : ArrayInfo} (ha : h'.IsArray a f) : h.IsArray a f := by
    obtain ⟨rank, t, d, r, ht, -⟩ := ha.type
    exact hs.isArray_of_live (hl.keeps fun _ _ => False) (hlive ht) ha fun _ => id
  refine ⟨hl.sound hs.registry, hl.arena hs.arena, ?_, ?_, ?_, ?_⟩
  · intro v n hn
    rw [hl.size?_eq] at hn
    obtain ⟨t, d, ht, hd, hshape⟩ := hs.shaped hn
    exact ⟨t, d, he.typeOf ht, he.descriptor hd, hshape.congr he fun _ => .inl (hl.word_eq v 0)⟩
  · intro v t l f ht hlay hf hin
    have ht := hs.typeOf_of_live he (hlive ht) ht
    have hold := hs.layout_of_learns hl ht hlay hf
    exact (hs.fields ht hold hf hin).congr he (hl.slot_eq v f.offset)
  · intro a f ha
    have hsound := hs.arrays (harray ha)
    have hbody := hsound.body.congr he fun j _ => hl.byte_eq _ j
    exact hsound.of_body he (fun k _ => hl.word_eq _ k) hbody
  · exact fun ha hb hbuffer => hs.sharing (harray ha) (harray hb) hbuffer

end Sound

theorem Rewrites.arrayType_iff (hr : Rewrites S h h') :
    h'.ArrayType a elem rank ↔ h.ArrayType a elem rank :=
  ⟨fun ht => ht.extends hr.symm.extends, fun ht => ht.extends hr.extends⟩

/-- An array that nobody writes to is the array that it was. -/
theorem Rewrites.isArray_of (hr : Rewrites S h h') (hs : h.Sound) (ha : h'.IsArray a f)
    (hS : ∀ k, ¬S a k) : h.IsArray a f := by
  obtain ⟨rank, t, d, r, ht, -⟩ := ha.type
  exact hs.isArray_of_live hr.keeps (hr.live_iff.1 (live_of_typeOf ht)) ha hS

/-- A buffer that nobody writes to is as it is described. -/
theorem Rewrites.bodySound_of (hr : Rewrites S h h') (hs : h.Sound) (hb : h.BodySound f)
    (hS : ∀ k, ¬S f.buffer k) : h'.BodySound f :=
  hb.congr hr.extends fun _ hj => hr.bytes (hs.size_buffer hb.buffer) hj (hS _)

/-- An array whose words nobody writes to is sound if its buffer is as they say. -/
theorem Rewrites.arraySound_of (hr : Rewrites S h h') (hs : h.Sound) (ha : h.ArraySound a f)
    (hS : ∀ k, ¬S a k) (hbody : h'.BodySound f) : h'.ArraySound a f := by
  have hn := hs.size_array ha.type
  refine ha.of_body hr.extends (fun k hk => hr.word_eq hn ?_ fun j _ _ => hS j) hbody
  rw [refSize]
  omega

namespace Sound

/-- Overwriting bytes keeps the sizes right if the length in front of an object stays, or the length of a
simple vector gets smaller. -/
theorem shaped_put (hs : h.Sound) (ht : h.typeOf v = .ok t)
    (hd : h.types.descriptor t = .ok d) (hn : h.size? v = some n) (hend : k + bs.length ≤ n)
    (hlength : hasLength d.kind = true → refSize ≤ k ∨
      d.kind = .simpleVector ∧ (h.put v k bs).word v 0 ≤ h.word v 0)
    (hm : (h.put v k bs).size? w = some m) :
    ∃ s d', (h.put v k bs).typeOf w = .ok s ∧ (h.put v k bs).types.descriptor s = .ok d' ∧
      (h.put v k bs).Shaped w s d' m := by
  have hr : Rewrites (fun w _ => w = v) h (h.put v k bs) := .put hs.arena hn hend fun _ _ _ => rfl
  have he := hr.extends
  rw [hr.size?_eq] at hm
  obtain ⟨s, d', hts, hd', hshape⟩ := hs.shaped hm
  refine ⟨s, d', he.typeOf hts, he.descriptor hd', hshape.congr he fun hlen => ?_⟩
  by_cases hw : w = v
  · subst hw
    rw [ht] at hts
    cases hts
    rw [hd] at hd'
    cases hd'
    refine (hlength hlen).imp_left fun hk => word_put_outside (.inl ?_)
    rw [refSize] at hk
    omega
  · have hroom := hshape.le_of_hasLength hlen
    exact .inl (hr.word_eq hm (by rw [refSize] at hroom; omega) fun _ _ _ => hw)

/-- Overwriting bytes keeps references right if what is written into a field fits there. -/
theorem fits_put {s : TypeRef} {f : FieldLayout} (hs : h.Sound) (ht : h.typeOf v = .ok t)
    (hn : h.size? v = some n) (hend : k + bs.length ≤ n)
    (hfields : ∀ {l} {f : FieldLayout}, h.registry.layouts.find? t = some l → f ∈ l.fields →
      f.isInline = false → (f.offset + refSize ≤ k ∨ k + bs.length ≤ f.offset) ∨
        (h.put v k bs).Fits v f.offset f.type)
    (hts : (h.put v k bs).typeOf w = .ok s) (hl : h.registry.layouts.find? s = some l)
    (hf : f ∈ l.fields) (hin : f.isInline = false) : (h.put v k bs).Fits w f.offset f.type := by
  have hr : Rewrites (fun w _ => w = v) h (h.put v k bs) := .put hs.arena hn hend fun _ _ _ => rfl
  rw [hr.typeOf_iff] at hts
  have hold := hs.fields hts hl hf hin
  by_cases hw : w = v
  · subst hw
    rw [ht] at hts
    cases hts
    rcases hfields hl hf hin with hsep | hfits
    · exact hold.congr hr.extends
        (slot_congr fun j _ hj => byte_put_outside (by rw [refSize] at hsep; omega))
    · exact hfits
  · have hroom := hs.registry.layouts.end_le hl hf
    rw [hs.registry.layouts.size_reference hl hf hin] at hroom
    exact hold.congr hr.extends (hr.keeps.slot_eq (hs.size_record hts hl hf) hroom fun _ _ _ => hw)

/-- Overwriting bytes of an object that is neither an array nor a buffer. -/
theorem put (hs : h.Sound) (ht : h.typeOf v = .ok t) (hd : h.types.descriptor t = .ok d)
    (hn : h.size? v = some n) (hend : k + bs.length ≤ n) (harray : d.kind ≠ .array)
    (hbuffer : d.kind ≠ .buffer)
    (hlength : hasLength d.kind = true → refSize ≤ k ∨
      d.kind = .simpleVector ∧ (h.put v k bs).word v 0 ≤ h.word v 0)
    (hfields : ∀ {l} {f : FieldLayout}, h.registry.layouts.find? t = some l → f ∈ l.fields →
      f.isInline = false → (f.offset + refSize ≤ k ∨ k + bs.length ≤ f.offset) ∨
        (h.put v k bs).Fits v f.offset f.type) : (h.put v k bs).Sound := by
  have hr : Rewrites (fun w _ => w = v) h (h.put v k bs) := .put hs.arena hn hend fun _ _ _ => rfl
  have he := hr.extends
  have hne_array {a : Value} {f : ArrayInfo} (ha : (h.put v k bs).IsArray a f) : a ≠ v := by
    rintro rfl
    obtain ⟨rank, s, d', r, hs', hd', hkind, -⟩ := ha.type
    rw [he.typeOf ht] at hs'
    cases hs'
    rw [he.descriptor hd] at hd'
    cases hd'
    exact harray hkind
  have hne_buffer {b : Value} (hb : h.typeOf b = .ok Builtin.buffer) : b ≠ v := by
    rintro rfl
    rw [hb] at ht
    cases ht
    rw [hs.descriptor_buffer] at hd
    cases hd
    exact hbuffer rfl
  have harray_of {a : Value} {f : ArrayInfo} (ha : (h.put v k bs).IsArray a f) : h.IsArray a f :=
    hr.isArray_of hs ha fun _ => hne_array ha
  refine ⟨by rw [hr.registry]; exact hs.registry, hr.arena hs.arena, ?_, ?_, ?_, ?_⟩
  · exact fun hm => hs.shaped_put ht hd hn hend hlength hm
  · intro w s l f hts hl hf hin
    rw [hr.registry] at hl
    exact hs.fits_put ht hn hend hfields hts hl hf hin
  · intro a f ha
    have hsound := hs.arrays (harray_of ha)
    have hbody := hr.bodySound_of hs hsound.body fun _ => hne_buffer hsound.body.buffer
    exact hr.arraySound_of hs hsound (fun _ => hne_array ha) hbody
  · exact fun ha hb hbuf => hs.sharing (harray_of ha) (harray_of hb) hbuf

/-- Overwriting bytes of arrays, and bytes of buffers behind their lengths. -/
theorem rewrites (hs : h.Sound) (hr : Rewrites S h h')
    (hS : ∀ v k, S v k → (∃ elem rank, h.ArrayType v elem rank) ∨
      h.typeOf v = .ok Builtin.buffer ∧ refSize ≤ k)
    (harrays : ∀ {a f}, h'.IsArray a f → h'.ArraySound a f)
    (hsharing : ∀ {a f b g}, h'.IsArray a f → h'.IsArray b g → g.buffer = f.buffer →
      b = a ∨ f.Shares g) : h'.Sound := by
  have he := hr.extends
  refine ⟨by rw [hr.registry]; exact hs.registry, hr.arena hs.arena, ?_, ?_, harrays, hsharing⟩
  · intro v n hn
    rw [hr.size?_eq] at hn
    obtain ⟨t, d, ht, hd, hshape⟩ := hs.shaped hn
    refine ⟨t, d, he.typeOf ht, he.descriptor hd, hshape.congr he fun hlen => .inl ?_⟩
    have hn8 := hshape.le_of_hasLength hlen
    refine hr.word_eq hn hn8 fun j _ hj hSj => ?_
    rcases hS v j hSj with ⟨elem, rank, t', d', r, ht', hd', hkind, -⟩ | ⟨-, hk⟩
    · rw [ht] at ht'
      cases ht'
      rw [hd] at hd'
      cases hd'
      rw [hkind] at hlen
      cases hlen
    · rw [refSize] at hk
      omega
  · intro v t l f ht hl hf hin
    have ht := hr.typeOf_iff.1 ht
    rw [hr.registry] at hl
    have hend := hs.registry.layouts.end_le hl hf
    rw [hs.registry.layouts.size_reference hl hf hin] at hend
    have hn := hs.size_record ht hl hf
    obtain ⟨d, hd, hdesc⟩ := hs.registry.layouts.describes hl
    refine (hs.fields ht hl hf hin).congr he (slot_congr fun j _ hj => hr.bytes hn ?_ fun hSj => ?_)
    · rw [refSize] at hend
      omega
    · have hkind := kind_of_field hdesc hf
      rcases hS v j hSj with ⟨elem, rank, t', d', r, ht', hd', harray, -⟩ | ⟨hb, -⟩
      · rw [ht] at ht'
        cases ht'
        rw [show h.types.descriptor t = .ok d from hd] at hd'
        cases hd'
        exact hkind.2 harray
      · rw [ht] at hb
        cases hb
        have hd : h.types.descriptor Builtin.buffer = .ok d := hd
        rw [hs.descriptor_buffer] at hd
        cases hd
        cases hkind.1

end Sound

end TypedHeap.Heap
