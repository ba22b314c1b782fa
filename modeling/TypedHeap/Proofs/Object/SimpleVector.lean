import TypedHeap.Object.SimpleVector
import TypedHeap.Proofs.Object.Box

/-!
# Simple vectors

A builder knows the length of its vector. As long as nobody else touches the vector, what the builder
writes stays inside it.

* `SimpleVector.Builder.Holds`: the vector is as its builder thinks.
* `SimpleVector.build_meets`, `Builder.after_set`, `Builder.runOn_truncate`: construction.
* `SimpleVector.new_meets`, `ofParams_meets`: whole vectors.
* `SimpleVector.length_eq_ok`, `get_eq_ok`: what can be read.
-/

namespace TypedHeap

open TypedHeap.Action (Meets)
open Heap

namespace SimpleVector

variable {h h' : Heap} {v x : Value} {b : Builder} {i m n : Nat} {S : Value → Nat → Prop}

/-- A simple vector is as its builder thinks. -/
structure Builder.Holds (b : Builder) (h : Heap) : Prop where
  type : h.typeOf b.value = .ok Builtin.simpleVector
  length : h.word b.value 0 = b.length

theorem Builder.Holds.keeps (hb : b.Holds h) (hs : h.Sound) (hk : Keeps S h h')
    (hS : ∀ j, ¬S b.value j) : b.Holds h' where
  type := hk.typeOf hb.type
  length := by
    obtain ⟨n, hn, hle⟩ := hs.size_vector hb.type
    rw [hk.word_eq hn (by rw [refSize] at hle; omega) fun j _ _ => hS j]
    exact hb.length

/-- A slot below the length lies inside the vector. -/
theorem slot_end_le (hs : h.Sound) (ht : h.typeOf v = .ok Builtin.simpleVector)
    (hi : i < h.word v 0) : v.offset + refSize * (i + 1) + 8 ≤ h.top := by
  obtain ⟨n, hn, hle⟩ := hs.size_vector ht
  have := hs.end_le_top hn
  rw [refSize] at hle ⊢
  omega

theorem build_meets (hr : Ready S h) (length : Nat) :
    Meets (Path S) (build length) h fun b h' => ¬h.Live b.value ∧ b.length = length ∧ b.Holds h' := by
  unfold build
  refine Meets.bind (allocate_meets hr Builtin.simpleVector length) fun v h₁ hpath hv => Meets.pure ?_
  have hs := (hr.along hpath).sound
  have hlength := hv.length hs.descriptor_simpleVector rfl
  exact ⟨hv.fresh, rfl, hv.type, hlength⟩

/-- The barrier leaves the length of a vector alone. -/
theorem word_guarded {p c : Value} (hs : h.Sound) (ht : h.typeOf v = .ok Builtin.simpleVector) :
    (h.guarded p c).word v 0 = h.word v 0 := by
  obtain ⟨n, hn, hle⟩ := hs.size_vector ht
  have hr : Rewrites (fun _ _ => False) h (h.guarded p c) := .guarded hs.arena p c
  exact hr.word_eq hn (by rw [refSize] at hle; omega) fun _ _ _ => id

/-- Storing a reference keeps the vector as its builder thinks, whether the store succeeds or not, and
makes no object. -/
theorem Builder.after_set (hs : h.Sound) (hb : b.Holds h) (hS : ∀ j, S b.value j) (i : Nat) (x : Value) :
    Path S h ((b.set i x).runOn h).2 ∧ b.Holds ((b.set i x).runOn h).2 ∧
      ((b.set i x).runOn h).2.objects = h.objects := by
  by_cases hi : b.length ≤ i
  · have hrun : (b.set i x).runOn h = (.error (.indexOutOfRange .element i b.length), h) := by
      rw [set, if_pos hi]
      exact Action.runOn_bind_error (Action.runOn_throw _ h)
    rw [hrun]
    exact ⟨.refl, hb, rfl⟩
  · have hi' : i < h.word b.value 0 := by rw [hb.length]; omega
    have hrun : ((b.set i x).runOn h).2 =
        (h.putWord b.value (refSize * (i + 1)) x.offset).guarded b.value x := by
      rw [set, if_neg hi]
      exact runOn_storeRef (slot_end_le hs hb.type hi')
    have step : Step S h ((h.putWord b.value (refSize * (i + 1)) x.offset).guarded b.value x) :=
      .vectorSlot hb.type hi' hS
    obtain ⟨n, hn, hle⟩ := hs.size_vector hb.type
    have hput : Rewrites (fun _ _ => True) h (h.putWord b.value (refSize * (i + 1)) x.offset) :=
      .putWord hs.arena hn (by rw [refSize] at hle ⊢; omega) fun _ _ _ => trivial
    have hs' : (h.putWord b.value (refSize * (i + 1)) x.offset).Sound := hs.put_item hb.type hi' _
    have hguarded : Rewrites (fun _ _ => True) _ _ := .guarded hs'.arena b.value x
    rw [hrun]
    refine ⟨.step step, ⟨(step.keeps hs).typeOf hb.type, ?_⟩, hguarded.objects.trans hput.objects⟩
    rw [word_guarded hs' (hput.typeOf_iff.2 hb.type), word_putWord_outside (.inl (by rw [refSize]; omega))]
    exact hb.length

theorem Builder.set_meets (hs : h.Sound) (hb : b.Holds h) (hS : ∀ j, S b.value j) (i : Nat) (x : Value) :
    Meets (Path S) (b.set i x) h fun _ h' => b.Holds h' :=
  ⟨(b.after_set hs hb hS i x).1, fun _ _ => (b.after_set hs hb hS i x).2.1⟩

theorem runOn_clearSlots (hs : h.Sound) (ht : h.typeOf v = .ok Builtin.simpleVector)
    (hend : i + n ≤ h.word v 0) (hS : ∀ j, S v j) :
    ∃ h', (clearSlots v i n).runOn h = (.ok ⟨⟩, h') ∧ Path S h h' ∧ h'.word v 0 = h.word v 0 ∧
      h'.objects = h.objects := by
  induction n generalizing h i with
  | zero => exact ⟨h, rfl, .refl, rfl, rfl⟩
  | succ n ih =>
    have hi : i < h.word v 0 := by omega
    have step : Step S h (h.putWord v (refSize * (i + 1)) 0) := .vectorCleared ht hi hS
    have hword : (h.putWord v (refSize * (i + 1)) 0).word v 0 = h.word v 0 :=
      word_putWord_outside (.inl (by rw [refSize]; omega))
    have hwrite : (writeRef (slot v i) none).runOn h = (.ok ⟨⟩, h.putWord v (refSize * (i + 1)) 0) :=
      runOn_writeRef (slot_end_le hs ht hi)
    obtain ⟨h', hrun, hpath, hsame, hobjects⟩ :=
      ih (i := i + 1) (step.sound hs) ((step.keeps hs).typeOf ht) (by rw [hword]; omega)
    refine ⟨h', ?_, (Path.step step).trans hpath, hsame.trans hword, hobjects.trans put_objects⟩
    rw [clearSlots, Action.runOn_bind_ok hwrite, hrun]

/-- A builder that keeps fewer slots than it has knows so afterwards. -/
theorem Builder.runOn_truncate {length : Nat} (hs : h.Sound) (hb : b.Holds h) (hS : ∀ j, S b.value j)
    (hle : length ≤ b.length) :
    ∃ h', (b.truncate length).runOn h = (.ok { b with length }, h') ∧ Path S h h' ∧
      Builder.Holds { b with length } h' ∧ h'.objects = h.objects := by
  obtain ⟨h₁, hclear, hpath, hword, hobjects⟩ := runOn_clearSlots (S := S) (i := length) (n := b.length - length) hs
    hb.type (by rw [hb.length]; omega) hS
  have hs₁ := hpath.sound hs
  have ht₁ := (hpath.keeps hs).typeOf hb.type
  obtain ⟨n, hn, hsize⟩ := hs₁.size_vector ht₁
  have htop := hs₁.end_le_top hn
  have hreach := hs₁.arena.reach
  have hlt := h.word_lt b.value 0
  rw [refSize] at hsize
  rw [hb.length] at hlt
  have step : Step S h₁ (h₁.putWord b.value 0 length) :=
    .vectorLength ht₁ (by rw [hword, hb.length]; exact hle) hS
  have hwrite : (writeWord b.value.offset length).runOn h₁ = (.ok ⟨⟩, h₁.putWord b.value 0 length) :=
    runOn_writeWord (k := 0) (by omega)
  refine ⟨_, ?_, hpath.trans (Path.step step), ⟨(step.keeps hs₁).typeOf ht₁, ?_⟩,
    put_objects.trans hobjects⟩
  · rw [truncate, if_neg (Nat.not_lt.2 hle), Action.runOn_bind_ok hclear, Action.runOn_bind_ok hwrite]
    rfl
  · exact word_putWord (by omega) (by omega)

/-- A builder cannot make its vector longer. -/
theorem Builder.runOn_truncate_error {length : Nat} (hlt : b.length < length) :
    (b.truncate length).runOn h = (.error (.indexOutOfRange .element length b.length), h) := by
  rw [truncate, if_pos hlt]
  exact Action.runOn_bind_error (Action.runOn_throw _ h)

theorem Builder.truncate_meets (hs : h.Sound) (hb : b.Holds h) (hS : ∀ j, S b.value j) (length : Nat) :
    Meets (Path S) (b.truncate length) h fun b' h' => b' = { b with length } ∧ b'.Holds h' := by
  rcases Nat.lt_or_ge b.length length with hlt | hle
  · exact .of_runOn (Builder.runOn_truncate_error hlt) .refl nofun
  · obtain ⟨h', hrun, hpath, hb', -⟩ := b.runOn_truncate hs hb hS hle
    refine .of_runOn hrun hpath fun b' h => ?_
    cases h
    exact ⟨rfl, hb'⟩

theorem Builder.fill_meets {xs : List Value} (hs : h.Sound) (hb : b.Holds h) (hS : ∀ j, S b.value j)
    (i : Nat) : Meets (Path S) (b.fill i xs) h fun _ h' => b.Holds h' := by
  induction xs generalizing h i with
  | nil => exact Meets.pure hb
  | cons x xs ih =>
    refine Meets.bind (b.set_meets hs hb hS i x) fun _ h' hpath hb' => ?_
    exact ih (hpath.sound hs) hb' (i + 1)

theorem new_meets (hr : Ready S h) (items : List Value) :
    Meets (Path S) (new items) h fun v h' => ¬h.Live v ∧ h'.typeOf v = .ok Builtin.simpleVector := by
  unfold new
  refine Meets.bind (build_meets hr items.length) fun b h₁ hpath hb => ?_
  obtain ⟨hfresh, -, hb⟩ := hb
  refine Meets.bind (b.fill_meets (hr.along hpath).sound hb (hr.fresh hfresh) 0) fun _ h₂ _ hb₂ => ?_
  exact Meets.pure ⟨hfresh, hb₂.type⟩

/-- Each parameter is made an object. -/
theorem items_meets (hr : Ready S h) (ps : Params) : Meets (Path S) (ps.mapM Box.ofParam) h fun items h' =>
    ∀ v ∈ items, h'.Live v := by
  have hitems : Meets (Path S) (ps.mapM Box.ofParam) h fun items h' => List.Forall₂ (fun _ v => h'.Live v) ps items :=
    Meets.mapM ps (I := Ready S) hr (fun _ _ hr hpath => hr.along hpath)
      (fun _ _ _ _ hr hpath hv => (hpath.keeps hr.sound).live hv) fun p _ _ hr => Box.ofParam_meets hr p
  refine hitems.mono fun items h' _ hlive => ?_
  clear hitems
  induction hlive with
  | nil => exact nofun
  | cons hv _ ih => exact List.forall_mem_cons.2 ⟨hv, ih⟩

theorem ofParams_meets (hr : Ready S h) (ps : Params) :
    Meets (Path S) (ofParams ps) h fun v h' => ¬h.Live v ∧ h'.typeOf v = .ok Builtin.simpleVector := by
  unfold ofParams
  refine Meets.bind (items_meets hr ps) fun items h₁ hpath _ => ?_
  refine (new_meets (hr.along hpath) items).mono fun v h₂ _ hv => ⟨fun hlive => ?_, hv.2⟩
  exact hv.1 ((hpath.keeps hr.sound).live hlive)

/-! ## Questions -/

theorem length_eq_ok (hs : h.Sound) :
    length h v = .ok n ↔ h.typeOf v = .ok Builtin.simpleVector ∧ h.word v 0 = n := by
  unfold length
  rw [bind_eq_ok]
  constructor
  · rintro ⟨⟨⟩, ht, hn⟩
    exact ⟨expectType_eq_ok.1 ht, (readWord_eq_ok (k := 0)).1 hn |>.2⟩
  · rintro ⟨ht, rfl⟩
    obtain ⟨n, hn, hle⟩ := hs.size_vector ht
    have htop := hs.end_le_top hn
    rw [refSize] at hle
    exact ⟨⟨⟩, expectType_eq_ok.2 ht, readWord_eq (k := 0) (by omega)⟩

theorem get_eq_ok (hs : h.Sound) :
    get h v i = .ok x ↔ h.typeOf v = .ok Builtin.simpleVector ∧ i < h.word v 0 ∧
      h.slot v (refSize * (i + 1)) = some x := by
  unfold get
  constructor
  · intro hx
    obtain ⟨n, hn, hx⟩ := bind_eq_ok.1 hx
    obtain ⟨ht, rfl⟩ := (length_eq_ok hs).1 hn
    obtain ⟨hi, hx⟩ := guard_eq_ok.1 hx
    have hi := Nat.not_le.1 hi
    obtain ⟨y, hy, hx⟩ := bind_eq_ok.1 hx
    have hslot := ((readRef_eq_ok).1 hy).2
    rw [hslot]
    refine ⟨ht, hi, ?_⟩
    cases y with
    | none => cases hx
    | some y => exact congrArg some (pure_eq_ok.1 hx)
  · rintro ⟨ht, hi, hx⟩
    have hread := readRef_eq (slot_end_le hs ht hi)
    rw [hx] at hread
    refine bind_eq_ok.2 ⟨_, (length_eq_ok hs).2 ⟨ht, rfl⟩, ?_⟩
    exact guard_eq_ok.2 ⟨Nat.not_le.2 hi, bind_eq_ok.2 ⟨_, hread, rfl⟩⟩
end SimpleVector

end TypedHeap
