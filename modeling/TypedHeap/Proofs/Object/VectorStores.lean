import TypedHeap.Proofs.Object.SimpleVector

/-!
# What vectors hold after stores

A vector has no declared types, so a builder may be given anything, the address of no object included. The slot is
written first. What is stored there is looked at by the barrier alone, and only if the vector is old and not yet
remembered.

* `Heap.Watched`: objects whose stores the barrier looks at.
* `SimpleVector.Contains`: what can be read from a vector.
* `SimpleVector.Stored`, `SimpleVector.Built`: a store, and a whole vector.

Main results: `Builder.stored`, `built_new`, `Builder.get_truncate`.
-/

namespace TypedHeap

open TypedHeap.Action (Meets runOn_bind_ok runOn_bind_error)
open Heap

/-! ## What the barrier looks at -/

namespace Heap

variable {h : Heap} {p c : Value}

/-- The barrier looks at what is stored in an object if the object is old and not remembered. -/
def Watched (h : Heap) (p : Value) : Prop := h.Old p ∧ ¬h.Remembered p

theorem watched_iff (ha : h.Arena) (hp : h.Live p) :
    h.Watched p ↔ ((h.headerOf p).gc.old && !(h.headerOf p).gc.remembered) = true := by
  rw [Watched, old_iff ha, remembered_iff ha, Bool.and_eq_true, Bool.not_eq_true']
  simp [hp]

theorem gcBits_dead (hc : ¬h.Live c) : h.gcBits c = .error (.invalidTag c.offset .notAnObject) := by
  have hsize : h.objectSize c = .error (.invalidTag c.offset .notAnObject) := by
    unfold objectSize
    cases hn : h.objects.lookup c.offset with
    | none => rfl
    | some n => exact absurd ⟨n, hn⟩ hc
  rw [gcBits, header, hsize]
  rfl

/-- A store that the barrier does not look at is none of its business. -/
theorem runOn_writeBarrier_unwatched (ha : h.Arena) (hp : h.Live p) (hw : ¬h.Watched p) (c : Value) :
    (writeBarrier p c).runOn h = (.ok ⟨⟩, h) :=
  runOn_writeBarrier_unnoticed ha hp (by rwa [watched_iff ha hp] at hw) c

/-- The barrier refuses what is no object, and leaves the heap as the store made it. -/
theorem runOn_writeBarrier_dead (ha : h.Arena) (hp : h.Live p) (hw : h.Watched p) (hc : ¬h.Live c) :
    (writeBarrier p c).runOn h = (.error (.invalidTag c.offset .notAnObject), h) := by
  have hchild : (Action.look fun h : Heap => h.gcBits c).runOn h =
      (.error (.invalidTag c.offset .notAnObject), h) := by
    rw [Action.runOn_look, gcBits_dead hc]
  rw [writeBarrier, runOn_bind_ok (runOn_gcBits ha hp), if_pos ((watched_iff ha hp).1 hw), runOn_bind_error hchild]

/-- What an object holds has nothing to do with its flags. -/
theorem watched_put {k n : Nat} {bs : List UInt8} (ha : h.Arena) (hn : h.size? p = some n)
    (hend : k + bs.length ≤ n) : (h.put p k bs).Watched p ↔ h.Watched p := by
  have hr : Rewrites (fun _ _ => True) h (h.put p k bs) := .put ha hn hend fun _ _ _ => trivial
  rw [watched_iff (hr.arena ha) (hr.live_iff.2 ⟨n, hn⟩), watched_iff ha ⟨n, hn⟩, headerOf_put ha hn hend ⟨n, hn⟩]

end Heap

namespace SimpleVector

variable {h h' : Heap} {v w x y : Value} {b : Builder} {i j n : Nat} {S : Value → Nat → Prop} {xs ys : List Value}

/-! ## Elements of vectors -/

/-- The bytes of a slot. -/
def SlotBytes (v : Value) (i : Nat) (w : Value) (k : Nat) : Prop :=
  w = v ∧ refSize * (i + 1) ≤ k ∧ k < refSize * (i + 1) + refSize

/-- An element is read as before while nobody touches its slot or the length. -/
theorem get_kept (hs : h.Sound) (hs' : h'.Sound) (hk : Keeps S h h') (hw : h.Live w)
    (hlength : ∀ k, k < refSize → ¬S w k) (hslot : ∀ k, SlotBytes w j w k → ¬S w k) :
    get h' w j = .ok y ↔ get h w j = .ok y := by
  rw [get_eq_ok hs, get_eq_ok hs']
  have htype : h'.typeOf w = .ok Builtin.simpleVector ↔ h.typeOf w = .ok Builtin.simpleVector :=
    ⟨hs.typeOf_of_live hk.toExtends hw, hk.typeOf⟩
  rw [htype]
  refine and_congr_right fun ht => ?_
  obtain ⟨n, hn, hle⟩ := hs.size_vector ht
  rw [refSize] at hle hlength
  rw [hk.word_eq hn (by omega) fun k _ hk => hlength k (by omega)]
  refine and_congr_right fun hj => ?_
  rw [hk.slot_eq hn (by rw [refSize]; omega) fun k hlo hhi => hslot k ⟨rfl, hlo, hhi⟩]

/-- The same, when there are no new objects. -/
theorem get_rewritten (hs : h.Sound) (hs' : h'.Sound) (hr : Rewrites S h h') (hlength : ∀ k, k < refSize → ¬S w k)
    (hslot : ∀ k, SlotBytes w j w k → ¬S w k) : get h' w j = .ok y ↔ get h w j = .ok y := by
  by_cases hw : h.Live w
  · exact get_kept hs hs' hr.keeps hw hlength hslot
  · rw [get_eq_ok hs, get_eq_ok hs']
    refine iff_of_false (fun hget => hw ?_) fun hget => hw ?_
    · exact hr.live_iff.1 (live_of_typeOf hget.1)
    · exact live_of_typeOf hget.1

/-- What was stored in a slot is its element, and all others are as before. -/
theorem get_putWord (hs : h.Sound) (ht : h.typeOf v = .ok Builtin.simpleVector) (hi : i < h.word v 0) (x : Value) :
    get (h.putWord v (refSize * (i + 1)) x.offset) v i = .ok x ∧
      Rewrites (SlotBytes v i) h (h.putWord v (refSize * (i + 1)) x.offset) ∧
      ∀ w j y, w ≠ v ∨ j ≠ i →
        (get (h.putWord v (refSize * (i + 1)) x.offset) w j = .ok y ↔ get h w j = .ok y) := by
  obtain ⟨n, hn, hle⟩ := hs.size_vector ht
  have hend := Nat.le_trans (slot_end_le hs ht hi) hs.arena.reach
  have hr : Rewrites (SlotBytes v i) h (h.putWord v (refSize * (i + 1)) x.offset) :=
    .putWord hs.arena hn (by rw [refSize] at hle ⊢; omega) fun k hlo hhi => ⟨rfl, hlo, hhi⟩
  have hs' := hs.put_item ht hi x.offset
  refine ⟨(get_eq_ok hs').2 ⟨hr.typeOf_iff.2 ht, ?_, slot_putWord (x := some x) hend⟩, hr, fun w j y hne => ?_⟩
  · rw [word_putWord_outside (.inl (by rw [refSize]; omega))]
    exact hi
  · refine get_rewritten hs hs' hr (fun k hk => ?_) fun k hk => ?_
    · rintro ⟨-, hlo, -⟩
      rw [refSize] at hk hlo
      omega
    · rintro ⟨rfl, hlo, hhi⟩
      obtain ⟨-, hlo', hhi'⟩ := hk
      have hij : j = i := by
        rw [refSize] at hlo hhi hlo' hhi'
        omega
      rcases hne with hne | hne
      · exact hne rfl
      · exact hne hij

/-! ## One store -/

theorem Builder.runOn_set_error (hi : b.length ≤ i) (x : Value) :
    (b.set i x).runOn h = (.error (.indexOutOfRange .element i b.length), h) := by
  rw [set, if_pos hi]
  exact runOn_bind_error (Action.runOn_throw _ h)

/-- A store writes the slot, and then the barrier is told. -/
theorem Builder.runOn_set (hs : h.Sound) (hb : b.Holds h) (hi : i < b.length) (x : Value) :
    (b.set i x).runOn h = (writeBarrier b.value x).runOn (h.putWord b.value (refSize * (i + 1)) x.offset) := by
  have hi' : i < h.word b.value 0 := by rw [hb.length]; exact hi
  have hwrite : (writeRef (slot b.value i) (some x)).runOn h =
      (.ok ⟨⟩, h.putWord b.value (refSize * (i + 1)) x.offset) :=
    runOn_writeRef (slot_end_le hs hb.type hi')
  rw [set, if_neg (Nat.not_le.2 hi)]
  exact runOn_bind_ok hwrite

/-- What a store in a slot of a vector comes to, whether it is refused or not. -/
structure Stored (h : Heap) (v : Value) (i : Nat) (x : Value) (r : Except Error Unit × Heap) : Prop where
  /-- The slot has been written. -/
  element : get r.2 v i = .ok x
  others : ∀ w j y, w ≠ v ∨ j ≠ i → (get r.2 w j = .ok y ↔ get h w j = .ok y)
  /-- No other byte of a payload has changed. -/
  rewrites : Rewrites (SlotBytes v i) h r.2
  /-- Objects may be stored anywhere. -/
  object : h.Live x → r.1 = .ok ()
  /-- What is no object may be stored, unless the barrier looks at it. -/
  taken : ¬h.Live x → ¬h.Watched v → r.1 = .ok ()
  refused : ¬h.Live x → h.Watched v → r.1 = .error (.invalidTag x.offset .notAnObject)

theorem Builder.stored (hs : h.Sound) (hb : b.Holds h) (hi : i < b.length) (x : Value) :
    Stored h b.value i x ((b.set i x).runOn h) := by
  have hi' : i < h.word b.value 0 := by rw [hb.length]; exact hi
  obtain ⟨n, hn, hle⟩ := hs.size_vector hb.type
  obtain ⟨helement, hr, hothers⟩ := get_putWord hs hb.type hi' x
  have hs₁ : (h.putWord b.value (refSize * (i + 1)) x.offset).Sound := hs.put_item hb.type hi' _
  have hguarded : Rewrites (fun _ _ => False) _ _ := .guarded hs₁.arena b.value x
  have hsame (w : Value) (j : Nat) (y : Value) := get_rewritten (w := w) (j := j) (y := y) hs₁
    (hs₁.guarded b.value x) hguarded (fun _ _ => id) fun _ _ => id
  have hlive : (h.putWord b.value (refSize * (i + 1)) x.offset).Live b.value := hr.live_iff.2 ⟨n, hn⟩
  have hwatched : (h.putWord b.value (refSize * (i + 1)) x.offset).Watched b.value ↔ h.Watched b.value :=
    watched_put hs.arena hn (by rw [LittleEndian.length_toBytes, refSize] at *; omega)
  have hheap : ((b.set i x).runOn h).2 =
      (h.putWord b.value (refSize * (i + 1)) x.offset).guarded b.value x := by
    rw [b.runOn_set hs hb hi x, Heap.guarded]
  refine ⟨?_, fun w j y hne => ?_, ?_, fun hx => ?_, fun hx hw => ?_, fun hx hw => ?_⟩
  · rw [hheap, hsame]
    exact helement
  · rw [hheap, hsame]
    exact hothers w j y hne
  · rw [hheap]
    exact hr.trans (hguarded.mono fun _ _ => False.elim)
  · rw [b.runOn_set hs hb hi x, runOn_writeBarrier hs₁.arena hlive (hr.live_iff.2 hx)]
  · rw [b.runOn_set hs hb hi x, runOn_writeBarrier_unwatched hs₁.arena hlive (fun h => hw (hwatched.1 h)) x]
  · rw [b.runOn_set hs hb hi x,
      runOn_writeBarrier_dead hs₁.arena hlive (hwatched.2 hw) fun h => hx (hr.live_iff.1 h)]

/-! ## Whole vectors -/

/-- The elements that can be read from a vector, in order. -/
def Contains (h : Heap) (v : Value) (ys : List Value) : Prop := ∀ j y, get h v j = .ok y ↔ ys[j]? = some y

theorem build_new (hr : Ready S h) (length : Nat) : Meets (Path S) (build length) h fun b h' =>
    ¬h.Live b.value ∧ b.length = length ∧ b.Holds h' ∧ h'.Young b.value ∧ Contains h' b.value [] := by
  unfold build
  refine Meets.bind (allocate_meets hr Builtin.simpleVector length) fun v h₁ hpath hv => Meets.pure ?_
  have hs := (hr.along hpath).sound
  have hd := hs.descriptor_simpleVector
  refine ⟨hv.fresh, rfl, ⟨hv.type, hv.length hd rfl⟩, hv.young, fun j y => iff_of_false (fun hget => ?_) nofun⟩
  have hzero : h₁.slot v (refSize * (j + 1)) = none :=
    slot_eq_none_of_zero (word_eq_zero fun k hk _ => hv.zero hd fun _ => by rw [refSize] at hk ⊢; omega)
  have hslot := ((get_eq_ok hs).1 hget).2.2
  rw [hzero] at hslot
  cases hslot

/-- In a young vector everything is stored, one element after the other. -/
theorem Builder.runOn_fill (hs : h.Sound) (hb : b.Holds h) (hyoung : h.Young b.value)
    (hcontains : Contains h b.value ys) (hroom : ys.length + xs.length ≤ b.length) :
    ∃ h', (b.fill ys.length xs).runOn h = (.ok ⟨⟩, h') ∧ h'.Sound ∧ b.Holds h' ∧
      Contains h' b.value (ys ++ xs) := by
  induction xs generalizing h ys with
  | nil =>
    rw [List.append_nil]
    exact ⟨h, rfl, hs, hb, hcontains⟩
  | cons x xs ih =>
    rw [List.length_cons] at hroom
    have hi : ys.length < b.length := by omega
    have hi' : ys.length < h.word b.value 0 := by rw [hb.length]; exact hi
    obtain ⟨n, hn, hle⟩ := hs.size_vector hb.type
    have hwrites : Writes (SlotBytes b.value ys.length) h
        (h.putWord b.value (refSize * (ys.length + 1)) x.offset) :=
      .putWord hs.arena hn (by rw [refSize] at hle ⊢; omega) fun k hlo hhi => ⟨rfl, hlo, hhi⟩
    have hs₁ : (h.putWord b.value (refSize * (ys.length + 1)) x.offset).Sound := hs.put_item hb.type hi' _
    have hyoung₁ := (hwrites.reports.ages hs.arena).young b.value hyoung
    have hset : (b.set ys.length x).runOn h =
        (.ok ⟨⟩, h.putWord b.value (refSize * (ys.length + 1)) x.offset) := by
      rw [b.runOn_set hs hb hi x]
      exact runOn_writeBarrier_unwatched hs₁.arena (hwrites.live_iff.2 ⟨n, hn⟩)
        (fun hw => hyoung₁.not_old hw.1) x
    have hb₁ : b.Holds (h.putWord b.value (refSize * (ys.length + 1)) x.offset) := by
      have hafter := (b.after_set (S := fun _ _ => True) hs hb (fun _ => trivial) ys.length x).2.1
      rwa [hset] at hafter
    obtain ⟨helement, -, hothers⟩ := get_putWord hs hb.type hi' x
    have hcontains₁ : Contains (h.putWord b.value (refSize * (ys.length + 1)) x.offset) b.value (ys ++ [x]) := by
      intro j y
      by_cases hj : j = ys.length
      · subst hj
        rw [helement, List.getElem?_concat_length]
        exact ⟨fun h => congrArg some (Except.ok.inj h), fun h => congrArg Except.ok (Option.some.inj h)⟩
      · rw [hothers _ _ _ (.inr hj), hcontains]
        rcases Nat.lt_or_gt_of_ne hj with hlt | hgt
        · rw [List.getElem?_append_left hlt]
        · rw [List.getElem?_eq_none (by omega), List.getElem?_eq_none (by rw [List.length_append]; exact hgt)]
    have hlength : (ys ++ [x]).length = ys.length + 1 := List.length_append
    obtain ⟨h', hrun, hs', hb', hcontains'⟩ := ih hs₁ hb₁ hyoung₁ hcontains₁ (by omega)
    refine ⟨h', ?_, hs', hb', ?_⟩
    · rw [hlength] at hrun
      rw [fill, runOn_bind_ok hset, hrun]
    · rw [List.append_assoc] at hcontains'
      exact hcontains'

/-- A vector of given references is built if there is room for it, whatever the references name. -/
inductive Built (h : Heap) (items : List Value) : Except Error Value × Heap → Prop
  | noRoom {e : Error} {h' : Heap} (build : (build items.length).runOn h = (.error e, h')) :
      Built h items (.error e, h')
  | built {b : Builder} {v : Value} {h₁ h' : Heap} (build : (build items.length).runOn h = (.ok b, h₁))
      (fresh : ¬h.Live v) (type : h'.typeOf v = .ok Builtin.simpleVector) (contains : Contains h' v items) :
      Built h items (.ok v, h')

/-- If there is room, a new vector is filled to its end. -/
theorem new_of_build {items : List Value} {h₁ : Heap} (hs : h.Sound)
    (hbuild : (build items.length).runOn h = (.ok b, h₁)) :
    ∃ h', (new items).runOn h = (.ok b.value, h') ∧ h'.Sound ∧ ¬h.Live b.value ∧ b.length = items.length ∧
      b.Holds h' ∧ Contains h' b.value items := by
  have hr : Ready (fun _ _ => True) h := ⟨hs, fun _ _ => trivial⟩
  have hkept := (build_new hr items.length).kept
  have hanswer := (build_new hr items.length).answer
  rw [hbuild] at hkept hanswer
  obtain ⟨hfresh, hlength, hb, hyoung, hempty⟩ := hanswer b rfl
  have hroom : ([] : List Value).length + items.length ≤ b.length := by
    rw [hlength, List.length_nil, Nat.zero_add]
  obtain ⟨h', hfill, hs', hb', hcontains⟩ := b.runOn_fill (Path.sound hkept hs) hb hyoung hempty hroom
  refine ⟨h', ?_, hs', hfresh, hlength, hb', hcontains⟩
  rw [new, runOn_bind_ok hbuild]
  exact runOn_bind_ok hfill

theorem built_new (hs : h.Sound) (items : List Value) : Built h items ((new items).runOn h) := by
  rcases hrun : (build items.length).runOn h with ⟨e | b, h₁⟩
  · rw [new, runOn_bind_error hrun]
    exact .noRoom hrun
  · obtain ⟨h', hnew, -, hfresh, -, hb', hcontains⟩ := new_of_build hs hrun
    rw [hnew]
    exact .built hrun hfresh hb'.type hcontains

/-! ## Shortening -/

theorem runOn_clearSlots_rewrites (hs : h.Sound) (ht : h.typeOf v = .ok Builtin.simpleVector)
    (hend : i + n ≤ h.word v 0) :
    Rewrites (fun w k => w = v ∧ refSize * (i + 1) ≤ k) h ((clearSlots v i n).runOn h).2 := by
  induction n generalizing h i with
  | zero => exact .refl _ h
  | succ n ih =>
    have hi : i < h.word v 0 := by omega
    obtain ⟨m, hm, hle⟩ := hs.size_vector ht
    have hr : Rewrites (fun w k => w = v ∧ refSize * (i + 1) ≤ k) h (h.putWord v (refSize * (i + 1)) 0) :=
      .putWord hs.arena hm (by rw [refSize] at hle ⊢; omega) fun k hlo _ => ⟨rfl, hlo⟩
    have hwrite : (writeRef (slot v i) none).runOn h = (.ok ⟨⟩, h.putWord v (refSize * (i + 1)) 0) :=
      runOn_writeRef (slot_end_le hs ht hi)
    have hword : (h.putWord v (refSize * (i + 1)) 0).word v 0 = h.word v 0 :=
      word_putWord_outside (.inl (by rw [refSize]; omega))
    have hrest := ih (i := i + 1) (hs.put_item ht hi 0) (hr.typeOf_iff.2 ht) (by rw [hword]; omega)
    rw [clearSlots, runOn_bind_ok hwrite]
    refine hr.trans (hrest.mono fun w k hwk => ⟨hwk.1, ?_⟩)
    have := hwk.2
    rw [refSize] at this ⊢
    omega

theorem Builder.truncate_rewrites (hs : h.Sound) (hb : b.Holds h) (length : Nat) :
    Rewrites (fun w k => w = b.value ∧ (k < refSize ∨ refSize * (length + 1) ≤ k)) h
      ((b.truncate length).runOn h).2 := by
  rcases Nat.lt_or_ge b.length length with hlt | hle
  · rw [Builder.runOn_truncate_error hlt]
    exact .refl _ h
  · have hend : length + (b.length - length) ≤ h.word b.value 0 := by rw [hb.length]; omega
    obtain ⟨h₁, hclear, hpath, -, -⟩ :=
      runOn_clearSlots (S := fun _ _ => True) hs hb.type hend fun _ => trivial
    have hcleared := runOn_clearSlots_rewrites hs hb.type hend
    rw [hclear] at hcleared
    have hs₁ := hpath.sound hs
    obtain ⟨n, hn, hsize⟩ := hs₁.size_vector (hcleared.typeOf_iff.2 hb.type)
    have htop := hs₁.end_le_top hn
    rw [refSize] at hsize
    have hwrite : (writeWord b.value.offset length).runOn h₁ = (.ok ⟨⟩, h₁.putWord b.value 0 length) :=
      runOn_writeWord (k := 0) (by omega)
    have hheap : ((b.truncate length).runOn h).2 = h₁.putWord b.value 0 length := by
      rw [truncate, if_neg (Nat.not_lt.2 hle), runOn_bind_ok hclear, runOn_bind_ok hwrite]
      rfl
    rw [hheap]
    refine (hcleared.mono fun w k hwk => ⟨hwk.1, .inr hwk.2⟩).trans ?_
    exact .putWord hs₁.arena hn (by omega) fun k _ hk => ⟨rfl, .inl (by rw [refSize]; omega)⟩

/-- The slots that are left when a vector is shortened hold what they held. -/
theorem Builder.slot_truncate {length : Nat} (hs : h.Sound) (hb : b.Holds h) (hle : length ≤ b.length)
    (hj : j < length) :
    ((b.truncate length).runOn h).2.slot b.value (refSize * (j + 1)) = h.slot b.value (refSize * (j + 1)) := by
  obtain ⟨n, hn, hsize⟩ := hs.size_vector hb.type
  rw [hb.length, refSize] at hsize
  -- They are neither the length nor behind the new end.
  refine (b.truncate_rewrites hs hb length).keeps.slot_eq hn (by rw [refSize]; omega) fun k hlo hhi hS => ?_
  have := hS.2
  rw [refSize] at this hlo hhi
  omega

/-- A vector that is shortened has the elements that are left, and no other vector changes. -/
theorem Builder.get_truncate (hs : h.Sound) (hb : b.Holds h) {length : Nat}
    (hget : get ((b.truncate length).runOn h).2 w j = .ok y) : get h w j = .ok y := by
  rcases Nat.lt_or_ge b.length length with hlt | hle
  · rw [Builder.runOn_truncate_error hlt] at hget
    exact hget
  · have hr := b.truncate_rewrites hs hb length
    obtain ⟨h', hrun, hpath, hb', -⟩ := b.runOn_truncate (S := fun _ _ => True) hs hb (fun _ => trivial) hle
    have hs' := hpath.sound hs
    rw [hrun] at hr hget
    by_cases hwv : w = b.value
    · subst hwv
      obtain ⟨-, hj, hslot⟩ := (get_eq_ok hs').1 hget
      rw [hb'.length] at hj
      have hj : j < length := hj
      have hsame := b.slot_truncate hs hb hle hj
      rw [hrun] at hsame
      rw [hsame] at hslot
      exact (get_eq_ok hs).2 ⟨hb.type, by rw [hb.length]; omega, hslot⟩
    · exact (get_rewritten hs hs' hr (fun k _ hS => hwv hS.1) fun k _ hS => hwv hS.1).1 hget

end SimpleVector

end TypedHeap
