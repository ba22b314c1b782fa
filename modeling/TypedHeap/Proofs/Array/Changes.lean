import TypedHeap.Proofs.Heap.Sound

/-!
# Changes of arrays and their buffers

A buffer may belong to several arrays, which know then that they share it and describe it alike. So
what is judged by one description is judged by all of them.

* `Sound.rewrites_flags`: the collector's flags mean nothing to arrays.
* `Sound.rewrites_body`, `Sound.put_body`: the elements of an array change.
* `Sound.rewrites_buffer`: a buffer changes, whoever uses it.
* `Sound.retarget`, `Sound.view`: the words of an array change, or of an array and a view of it.

Main results: `Sound.put_body`, `Sound.retarget`, `Sound.view`.
-/

namespace TypedHeap.Heap

open ArrayObject

variable {h h' : Heap} {a v : Value} {f g : ArrayInfo} {elem : TypeRef} {i j k n rank : Nat}
  {S : Value → Nat → Prop} {bs : List UInt8}

namespace Sound

/-! ## Buffers -/

/-- No array is a buffer. -/
theorem ne_buffer (hs : h.Sound) (ha : h.ArrayType a elem rank) (hv : h.typeOf v = .ok Builtin.buffer) :
    a ≠ v := by
  rintro rfl
  obtain ⟨t, d, r, ht, hd, hkind, -⟩ := ha
  rw [hv] at ht
  cases ht
  rw [hs.descriptor_buffer] at hd
  cases hd
  cases hkind

theorem rewrites_buffer (hs : h.Sound) (hv : h.typeOf v = .ok Builtin.buffer) (hr : Rewrites S h h')
    (hS : ∀ w k, S w k → w = v ∧ refSize ≤ k)
    (hbody : ∀ {b g}, h.IsArray b g → g.buffer = v → h'.BodySound g) : h'.Sound := by
  have huntouched {b : Value} {g : ArrayInfo} (hb : h'.IsArray b g) (k : Nat) : ¬S b k := by
    obtain ⟨rank, ht⟩ := hb.type
    exact fun hk => hs.ne_buffer (hr.arrayType_iff.1 ht) hv (hS _ _ hk).1
  have harray {b : Value} {g : ArrayInfo} (hb : h'.IsArray b g) : h.IsArray b g :=
    hr.isArray_of hs hb (huntouched hb)
  refine hs.rewrites hr (fun w k hk => .inr ?_) (fun {b g} hb => ?_) fun hb hc hbuffer =>
    hs.sharing (harray hb) (harray hc) hbuffer
  · obtain ⟨rfl, hk⟩ := hS w k hk
    exact ⟨hv, hk⟩
  · have hsound := hs.arrays (harray hb)
    refine hr.arraySound_of hs hsound (huntouched hb) ?_
    by_cases hbuffer : g.buffer = v
    · exact hbody (harray hb) hbuffer
    · exact hr.bodySound_of hs hsound.body fun k hk => hbuffer (hS _ _ hk).1

/-- Changes of the collector's flags are no changes of objects. -/
theorem rewrites_flags (hs : h.Sound) (hr : Rewrites (fun _ _ => False) h h') : h'.Sound := by
  have harray {b : Value} {g : ArrayInfo} (hb : h'.IsArray b g) : h.IsArray b g :=
    hr.isArray_of hs hb fun _ => id
  refine hs.rewrites hr (fun _ _ => False.elim) (fun hb => ?_) fun hb hc hbuffer =>
    hs.sharing (harray hb) (harray hc) hbuffer
  have hsound := hs.arrays (harray hb)
  exact hr.arraySound_of hs hsound (fun _ => id) (hr.bodySound_of hs hsound.body fun _ => id)

/-- The elements of an array change. Arrays that share them see the same. -/
theorem rewrites_body (hs : h.Sound) (ha : h.IsArray a f) (hr : Rewrites S h h')
    (hS : ∀ w k, S w k → w = f.buffer ∧ refSize ≤ k) (hbody : h'.BodySound f) : h'.Sound := by
  refine hs.rewrites_buffer (hs.arrays ha).body.buffer hr hS fun {b g} hb hbuffer => ?_
  rcases hs.sharing ha hb hbuffer with rfl | hshares
  · rw [ha.unique hb]
    exact hbody
  · exact hbody.sameBody hshares.body

end Sound

/-! ## Elements -/

/-- A reference fits where it was stored if it stands for an object of the right type. -/
theorem fits_putWord {x : Value} {t : TypeRef} (he : h.Extends (h.putWord v k x.offset))
    (hend : v.offset + k + 8 ≤ h.memory.length) (hx : h.isa x t = .ok true) :
    (h.putWord v k x.offset).Fits v k t := by
  intro y hy
  have hslot : (h.putWord v k x.offset).slot v k = some x := slot_putWord (x := some x) hend
  rw [hslot] at hy
  cases hy
  exact he.isa hx

theorem BodySound.put (hb : h.BodySound f) (hs : h.Sound) (hend : k + bs.length ≤ h.word f.buffer 0)
    (hvacant : ∀ j (hj : j < bs.length), f.Vacant (k + j) → bs[j] = 0)
    (hfits : f.flags.storage = .references → ∀ i, i < f.length →
      (f.slotOffset i + refSize ≤ k ∨ k + bs.length ≤ f.slotOffset i) ∨
        (h.put f.buffer (refSize + k) bs).Fits f.buffer (refSize + f.slotOffset i) f.elem)
    (hselectors : f.flags.storage = .selected → ∀ j (hj : j < bs.length),
      f.selectorOffset 0 ≤ k + j → h.registry.Selector f.elem bs[j]) :
    (h.put f.buffer (refSize + k) bs).BodySound f := by
  have hsize := hs.size_buffer hb.buffer
  have hmemory : f.buffer.offset + (refSize + k) + bs.length ≤ h.memory.length := by
    have h1 := hs.end_le_top hsize
    have h2 := hs.arena.reach
    omega
  have he : h.Extends (h.put f.buffer (refSize + k) bs) :=
    (Rewrites.put (S := fun _ _ => True) hs.arena hsize (by omega) fun _ _ _ => trivial).extends
  refine ⟨hb.stored.extends he.registry, hb.length_le, he.typeOf hb.buffer, ?_, ?_, ?_, ?_⟩
  · rw [hb.room, word_put_outside (.inl (by rw [refSize]; omega))]
  · intro j hj
    by_cases hin : k ≤ j ∧ j < k + bs.length
    · obtain ⟨m, rfl⟩ := Nat.exists_eq_add_of_le hin.1
      have hm : m < bs.length := by omega
      rw [← Nat.add_assoc, byte_put_inside hmemory hm, hvacant m hm hj]
    · rw [byte_put_outside (by omega), hb.vacant j hj]
  · intro href i hi
    rcases hfits href i hi with hsep | hfits
    · have h8 : refSize = 8 := rfl
      exact (hb.fits href i hi).congr he (slot_congr fun j _ _ => byte_put_outside (by omega))
    · exact hfits
  · intro hsel i hi
    have hzero : f.selectorOffset 0 ≤ f.selectorOffset i := Nat.add_le_add_left (Nat.zero_le i) _
    by_cases hin : k ≤ f.selectorOffset i ∧ f.selectorOffset i < k + bs.length
    · obtain ⟨m, hm⟩ := Nat.exists_eq_add_of_le hin.1
      have hlt : m < bs.length := by omega
      rw [hm, ← Nat.add_assoc, byte_put_inside hmemory hlt]
      exact (hselectors hsel m hlt (by omega)).extends he.registry
    · rw [byte_put_outside (by omega)]
      exact (hb.selectors hsel i hi).extends he.registry

/-- Overwriting bytes of the elements of an array: zeros behind the last element, references of the
element type in an array that holds references, and selectors where selectors are. -/
theorem Sound.put_body (hs : h.Sound) (ha : h.IsArray a f)
    (hend : k + bs.length ≤ h.word f.buffer 0)
    (hvacant : ∀ j (hj : j < bs.length), f.Vacant (k + j) → bs[j] = 0)
    (hfits : f.flags.storage = .references → ∀ i, i < f.length →
      (f.slotOffset i + refSize ≤ k ∨ k + bs.length ≤ f.slotOffset i) ∨
        (h.put f.buffer (refSize + k) bs).Fits f.buffer (refSize + f.slotOffset i) f.elem)
    (hselectors : f.flags.storage = .selected → ∀ j (hj : j < bs.length),
      f.selectorOffset 0 ≤ k + j → h.registry.Selector f.elem bs[j]) :
    (h.put f.buffer (refSize + k) bs).Sound := by
  have hb := (hs.arrays ha).body
  have hr : Rewrites (fun w j => w = f.buffer ∧ refSize ≤ j) h (h.put f.buffer (refSize + k) bs) :=
    .put hs.arena (hs.size_buffer hb.buffer) (by omega) fun j hj _ => ⟨rfl, by omega⟩
  exact hs.rewrites_body ha hr (fun _ _ hk => hk) (hb.put hs hend hvacant hfits hselectors)

namespace Sound

/-- Overwriting bits in a slot that is in use. -/
theorem put_element (hs : h.Sound) (ha : h.IsArray a f) (hi : i < f.length)
    (hstorage : f.flags.storage ≠ .references)
    (hend : k + bs.length ≤ f.slotOffset i + f.flags.slotSize) :
    (h.put f.buffer (refSize + k) bs).Sound := by
  have hb := (hs.arrays ha).body
  have hroom := hb.slot_end (Nat.lt_of_lt_of_le hi hb.length_le)
  have hbefore := f.slot_end_le (Nat.lt_of_lt_of_le hi hb.length_le)
  refine hs.put_body ha (by omega) (fun j hj hvacant => ?_) (fun href => absurd href hstorage)
    fun _ j hj hle => ?_
  · exact absurd hvacant (ArrayInfo.not_vacant_of_slot hb.length_le hi (by omega))
  · simp only [ArrayInfo.selectorOffset, ArrayInfo.slotOffset] at hbefore hle hend
    omega

/-- What is written to its buffer changes nothing about an array. -/
theorem isArray_put (hs : h.Sound) (ha : h.IsArray a f) (hend : k + bs.length ≤ refSize + h.word f.buffer 0) :
    (h.put f.buffer k bs).IsArray a f := by
  have hb := (hs.arrays ha).body
  have hr : Rewrites (fun w _ => w = f.buffer) h (h.put f.buffer k bs) :=
    .put hs.arena (hs.size_buffer hb.buffer) hend fun _ _ _ => rfl
  exact hs.isArray_kept ha hr.keeps fun _ heq => hs.ne_buffer (hs.arrays ha).type hb.buffer heq

/-- The bits of a member of a union fit in a slot. -/
theorem member_le {d : Descriptor} {t : TypeRef} (hs : h.Sound) (ha : h.IsArray a f)
    (hstorage : f.flags.storage = .selected) (hd : h.types.descriptor f.elem = .ok d)
    (ht : t ∈ d.memberTypes) (hn : h.registry.Sized t n) : n ≤ f.flags.slotSize := by
  obtain ⟨-, -, -, -, hle⟩ := (hs.arrays ha).body.member_sized hstorage hd ht hn
  exact hle

/-- Storing a reference in a slot that is in use. -/
theorem put_reference {x : Value} (hs : h.Sound) (ha : h.IsArray a f) (hi : i < f.length)
    (href : f.flags.storage = .references) (hx : h.isa x f.elem = .ok true) :
    (h.putWord f.buffer (refSize + f.slotOffset i) x.offset).Sound := by
  have hb := (hs.arrays ha).body
  have hsize := hb.slotSize_references href
  have hroom := hb.slot_end (Nat.lt_of_lt_of_le hi hb.length_le)
  have hlen : (LittleEndian.toBytes 8 x.offset).length = 8 := LittleEndian.length_toBytes 8 _
  have hfit := hs.size_buffer hb.buffer
  have hmemory := Nat.le_trans (hs.end_le_top hfit) hs.arena.reach
  have hr : Rewrites (fun _ _ => True) h (h.putWord f.buffer (refSize + f.slotOffset i) x.offset) :=
    .putWord hs.arena hfit (by omega) fun _ _ _ => trivial
  refine hs.put_body ha (by omega) (fun j hj hvacant => ?_) (fun _ m hm => ?_) fun hsel => ?_
  · exact absurd hvacant (ArrayInfo.not_vacant_of_slot hb.length_le hi (by omega))
  · rcases Nat.lt_trichotomy m i with hlt | rfl | hlt
    · have := f.slot_end_le hlt
      exact .inl (.inl (by rw [refSize]; omega))
    · exact .inr (fits_putWord hr.extends (by omega) hx)
    · have := f.slot_end_le hlt
      exact .inl (.inr (by omega))
  · rw [href] at hsel
    cases hsel

/-- The number of a member of a union is a selector. -/
theorem selector_of_member {d : Descriptor} {t : TypeRef} {k : Nat} (hs : h.Sound) (ha : h.IsArray a f)
    (hstorage : f.flags.storage = .selected) (hd : h.types.descriptor f.elem = .ok d)
    (ht : d.memberTypes[k]? = some t) : h.registry.Selector f.elem (UInt8.ofNat k) := by
  refine ⟨d, t, hd, ?_⟩
  rw [(hs.arrays ha).body.toNat_selector hstorage hd ht]
  exact ht

/-- Overwriting a selector that is in use. -/
theorem put_selector {b : UInt8} (hs : h.Sound) (ha : h.IsArray a f) (hi : i < f.length)
    (hstorage : f.flags.storage = .selected) (hsel : h.registry.Selector f.elem b) :
    (h.put f.buffer (refSize + f.selectorOffset i) [b]).Sound := by
  have hb := (hs.arrays ha).body
  have hroom : f.selectorOffset i + 1 ≤ h.word f.buffer 0 :=
    hb.selector_end hstorage (Nat.le_trans hi hb.length_le)
  refine hs.put_body ha (by rw [List.length_singleton]; omega) (fun j hj hvacant => ?_) ?_ ?_
  · rw [List.length_singleton] at hj
    have hj : j = 0 := by omega
    subst hj
    exact absurd hvacant (ArrayInfo.not_vacant_selector hi)
  · intro href
    rw [hstorage] at href
    cases href
  · intro _ j hj _
    rw [List.getElem_singleton]
    exact hsel

/-- Emptying slots, whether they are in use or not. -/
theorem clear_slots {lo hi : Nat} (hs : h.Sound) (ha : h.IsArray a f) (hle : lo ≤ hi)
    (hroom : hi ≤ f.capacity) :
    (h.put f.buffer (refSize + f.slotOffset lo)
      (List.replicate ((hi - lo) * f.flags.slotSize) 0)).Sound := by
  have hb := (hs.arrays ha).body
  obtain ⟨hlen, hend⟩ := hb.slots_end hle hroom
  have hmemory : f.buffer.offset + refSize + h.word f.buffer 0 ≤ h.memory.length := by
    have h1 := hs.end_le_top (hs.size_buffer hb.buffer)
    have h2 := hs.arena.reach
    omega
  refine hs.put_body ha (by rw [List.length_replicate, hlen]; exact hend) (fun j hj _ => ?_) ?_ ?_
  · exact List.getElem_replicate ..
  · intro href i hi'
    rw [List.length_replicate, hlen]
    by_cases hlo : i < lo
    · have h1 := f.slot_end_le hlo
      rw [hb.slotSize_references href] at h1
      exact .inl (.inl h1)
    · by_cases hhi : hi ≤ i
      · exact .inl (.inr (ArrayInfo.slotOffset_mono f hhi))
      · -- The slot lies among those that are emptied.
        refine .inr (fits_of_none (slot_eq_none_of_zero (word_eq_zero fun j hj hj' => ?_)))
        have h1 := ArrayInfo.slotOffset_mono f (Nat.not_lt.1 hlo)
        have h2 := f.slot_end_le (Nat.not_le.1 hhi)
        rw [hb.slotSize_references href] at h2
        rw [refSize] at hj hj'
        obtain ⟨m, rfl⟩ : ∃ m, j = refSize + f.slotOffset lo + m :=
          ⟨j - (refSize + f.slotOffset lo), by rw [refSize]; omega⟩
        have hm : m < (hi - lo) * f.flags.slotSize := by
          rw [refSize] at hj'
          omega
        rw [byte_put_inside (by rw [List.length_replicate]; omega) (by rwa [List.length_replicate]),
          List.getElem_replicate]
  · intro _ j hj hle'
    have hbefore : f.slotOffset hi ≤ f.selectorOffset 0 := f.slotOffset_le_selectorOffset hroom
    rw [List.length_replicate] at hj
    omega

/-- Clearing selectors, whether they are in use or not. -/
theorem clear_selectors {lo hi : Nat} (hs : h.Sound) (ha : h.IsArray a f) (hle : lo ≤ hi)
    (hroom : hi ≤ f.capacity) (hstorage : f.flags.storage = .selected) :
    (h.put f.buffer (refSize + f.selectorOffset lo) (List.replicate (hi - lo) 0)).Sound := by
  have hb := (hs.arrays ha).body
  have hend := hb.selector_end hstorage hroom
  simp only [ArrayInfo.selectorOffset] at hend
  refine hs.put_body ha ?_ (fun j hj _ => ?_) ?_ ?_
  · rw [List.length_replicate]
    simp only [ArrayInfo.selectorOffset]
    omega
  · exact List.getElem_replicate ..
  · intro href
    rw [hstorage] at href
    cases href
  · intro _ j hj _
    rw [List.getElem_replicate]
    exact hb.selector_zero hstorage

end Sound

/-! ## Arrays -/

namespace Sound

/-- The words of arrays change. The arrays must be sound afterwards, and share buffers with each other
and the rest only as arrays may. -/
theorem rewrites_arrays {A : Value → Prop} (hs : h.Sound) (hr : Rewrites S h h')
    (hS : ∀ w k, S w k → A w) (hA : ∀ w, A w → ∃ elem rank, h.ArrayType w elem rank)
    (harrays : ∀ {b g}, A b → h'.IsArray b g → h'.ArraySound b g)
    (hamong : ∀ {b g c k}, A b → h'.IsArray b g → A c → h'.IsArray c k → k.buffer = g.buffer →
      c = b ∨ g.Shares k)
    (hothers : ∀ {b g c k}, A b → h'.IsArray b g → ¬A c → h.IsArray c k → k.buffer = g.buffer →
      g.Shares k) : h'.Sound := by
  have harray {b : Value} {g : ArrayInfo} (hb : h'.IsArray b g) (hA : ¬A b) : h.IsArray b g :=
    hr.isArray_of hs hb fun k hk => hA (hS _ _ hk)
  refine hs.rewrites hr (fun w k hk => .inl (hA w (hS w k hk))) (fun {b g} hb => ?_) ?_
  · by_cases hAb : A b
    · exact harrays hAb hb
    · have hsound := hs.arrays (harray hb hAb)
      refine hr.arraySound_of hs hsound (fun k hk => hAb (hS _ _ hk)) ?_
      refine hr.bodySound_of hs hsound.body fun k hk => ?_
      obtain ⟨elem, rank, ht⟩ := hA _ (hS _ _ hk)
      exact hs.ne_buffer ht hsound.body.buffer rfl
  · intro b g c k hb hc hbuffer
    by_cases hAb : A b
    · by_cases hAc : A c
      · exact hamong hAb hb hAc hc hbuffer
      · exact .inr (hothers hAb hb hAc (harray hc hAc) hbuffer)
    · by_cases hAc : A c
      · exact .inr (hothers hAc hc hAb (harray hb hAb) hbuffer.symm).symm
      · exact hs.sharing (harray hb hAb) (harray hc hAc) hbuffer

/-- An array gets other words. No other array may use the buffer that it has then. -/
theorem retarget (hs : h.Sound) (hr : Rewrites S h h') (hS : ∀ w k, S w k → w = a)
    (ht : h.ArrayType a elem rank) (ha : h'.IsArray a f) (hsound : h'.ArraySound a f)
    (hsole : ∀ {b g}, h.IsArray b g → b ≠ a → g.buffer ≠ f.buffer) : h'.Sound := by
  refine hs.rewrites_arrays (A := (· = a)) hr hS ?_ ?_ ?_ ?_
  · rintro _ rfl
    exact ⟨elem, rank, ht⟩
  · rintro b g rfl hb
    rw [ha.unique hb]
    exact hsound
  · rintro b g c k rfl - rfl - -
    exact .inl rfl
  · rintro b g c k rfl hb hc hck hbuffer
    rw [ha.unique hb] at hbuffer
    exact absurd hbuffer (hsole hck hc)

/-- A new array gets the buffer of an array, and both are marked as shared. -/
theorem view {f' : ArrayInfo} (hs : h.Sound) (hr : Rewrites S h h')
    (hS : ∀ w k, S w k → w = a ∨ w = v) (ha : h.IsArray a f) (ht : h.ArrayType v elem rank)
    (ha' : h'.IsArray a f') (hasound : h'.ArraySound a f') (hv : h'.IsArray v g)
    (hvsound : h'.ArraySound v g) (hbody : f.SameBody f') (hshares : f'.Shares g) : h'.Sound := by
  refine hs.rewrites_arrays (A := fun w => w = a ∨ w = v) hr hS ?_ ?_ ?_ ?_
  · rintro _ (rfl | rfl)
    · obtain ⟨r, hta⟩ := ha.type
      exact ⟨f.elem, r, hta⟩
    · exact ⟨elem, rank, ht⟩
  · rintro b g' (rfl | rfl) hb
    · rw [ha'.unique hb]
      exact hasound
    · rw [hv.unique hb]
      exact hvsound
  · rintro b g' c k (rfl | rfl) hb (rfl | rfl) hc -
    · exact .inl rfl
    · rw [ha'.unique hb, hv.unique hc]
      exact .inr hshares
    · rw [hv.unique hb, ha'.unique hc]
      exact .inr hshares.symm
    · exact .inl rfl
  · intro b g' c k hAb hb hAc hc hbuffer
    rw [not_or] at hAc
    -- Whoever else uses the buffer has been sharing it with the array before.
    have hother {e : ArrayInfo} (hbody : f.SameBody e) (hshared : e.flags.isShared = true)
        (hbuffer : k.buffer = e.buffer) : e.Shares k := by
      rcases hs.sharing ha hc (hbuffer.trans hbody.buffer) with rfl | hold
      · exact absurd rfl hAc.1
      · exact ⟨hshared, hold.right, hbody.symm.trans hold.body⟩
    rcases hAb with rfl | rfl
    · rw [ha'.unique hb] at hbuffer ⊢
      exact hother hbody hshares.left hbuffer
    · rw [hv.unique hb] at hbuffer ⊢
      exact hother (hbody.trans hshares.body) hshares.right hbuffer

end Sound

end TypedHeap.Heap
