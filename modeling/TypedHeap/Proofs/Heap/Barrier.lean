import TypedHeap.Heap.Barrier
import TypedHeap.Proofs.Heap.Writes

/-!
# What the write barrier does

The barrier flags a parent and queues it, or does nothing. It changes no payload.

* `Heap.flagged`, `Heap.guarded`: the heap after a parent was queued, and after the barrier was told of
  a store.
* `Heap.runOn_writeBarrier`, `runOn_storeRef`: runs.

* `Heap.Old`, `Heap.Young`, `Heap.Remembered`: what the collector's flags say about an object.
* `Heap.Ages`: how they change as long as the collector does not change them.

Main results: `guarded_cases`, `Reports.guarded`, `remembered_guarded`.
-/

namespace TypedHeap.Heap

variable {h h' h'' : Heap} {p c v : Value} {k n : Nat} {S : Value → Nat → Prop}

/-! ## The heap afterwards -/

/-- The heap with the collector's flags of an object replaced. -/
def setFlags (h : Heap) (v : Value) (g : GcBits) : Heap := h.setHeader v ((h.headerOf v).withGc g)

/-- The heap with a parent flagged and queued. -/
def flagged (h : Heap) (p : Value) : Heap :=
  { h.setFlags p { (h.headerOf p).gc with remembered := true } with
    barrier := h.barrier.queue p
    stats := { h.stats with barrierHits := h.stats.barrierHits + 1 } }

/-- The heap after the write barrier was told of a store of `c` into a slot of `p`. -/
def guarded (h : Heap) (p c : Value) : Heap := ((writeBarrier p c).runOn h).2

theorem Rewrites.setFlags (ha : h.Arena) (hv : h.Live v) (g : GcBits) :
    Rewrites S h (h.setFlags v g) :=
  (Rewrites.setHeader ha hv g).mono fun _ _ => False.elim

theorem headerOf_flagged (ha : h.Arena) (hp : h.Live p) :
    (h.flagged p).headerOf p = (h.headerOf p).withGc { (h.headerOf p).gc with remembered := true } :=
  headerOf_setHeader (Nat.le_trans (ha.header_end_le hp) ha.reach) (word_withGc_lt _)

/-- The barrier sets `REMEMBERED`. -/
theorem Reports.flagged (ha : h.Arena) (hp : h.Live p) : Reports S h (h.flagged p) := by
  have hr : Rewrites S h (h.setFlags p { (h.headerOf p).gc with remembered := true }) :=
    .setFlags ha hp _
  have hother {w : Value} (hw : h.Live w) (hne : p ≠ w) : (h.flagged p).headerOf w = h.headerOf w :=
    headerOf_setHeader_of_ne ha hp hw hne
  refine ⟨⟨hr.registry, hr.config, hr.top, hr.objects, ?_, ?_, ?_, hr.length, hr.vacant, hr.type?, hr.bytes⟩,
    fun w hw => ?_, fun w hw hbit => ?_⟩
  · rfl
  · rfl
  · rfl
  · by_cases hne : p = w
    · rw [← hne, headerOf_flagged ha hp, Header.gc_withGc]
    · rw [hother hw hne]
  · by_cases hne : p = w
    · rw [← hne, headerOf_flagged ha hp, Header.gc_withGc]
    · rw [hother hw hne]
      exact hbit

/-! ## Runs -/

theorem gcBits_eq (ha : h.Arena) (hv : h.Live v) : h.gcBits v = .ok (h.headerOf v).gc := by
  unfold gcBits
  rw [header_eq_ok.2 ⟨hv, ha.header_end_le hv, rfl⟩]
  rfl

theorem runOn_gcBits (ha : h.Arena) (hv : h.Live v) :
    (Action.look fun h : Heap => h.gcBits v).runOn h = (.ok (h.headerOf v).gc, h) := by
  rw [Action.runOn_look, gcBits_eq ha hv]

theorem runOn_setFlags (ha : h.Arena) (hv : h.Live v) (g : GcBits) :
    (setGcBits v g).runOn h = (.ok ⟨⟩, h.setFlags v g) :=
  runOn_setGcBits hv (ha.header_end_le hv)

/-- The barrier queues an old parent that was not queued before, if the child is young. -/
theorem runOn_writeBarrier_flagged (ha : h.Arena) (hp : h.Live p) (hc : h.Live c)
    (hbits : ((h.headerOf p).gc.old && !(h.headerOf p).gc.remembered) = true)
    (hchild : (h.headerOf c).gc.old = false) :
    (writeBarrier p c).runOn h = (.ok ⟨⟩, h.flagged p) := by
  rw [writeBarrier, Action.runOn_bind_ok (runOn_gcBits ha hp), if_pos hbits,
    Action.runOn_bind_ok (runOn_gcBits ha hc), if_pos (by rw [hchild]; rfl),
    Action.runOn_bind_ok (runOn_setFlags ha hp _), Action.runOn_modify]
  simp only [flagged, setFlags, setHeader, putHeader_barrier, putHeader_stats]

/-- Of other parents it takes no notice, whatever is stored in them. -/
theorem runOn_writeBarrier_unnoticed (ha : h.Arena) (hp : h.Live p)
    (hbits : ¬((h.headerOf p).gc.old && !(h.headerOf p).gc.remembered) = true) (c : Value) :
    (writeBarrier p c).runOn h = (.ok ⟨⟩, h) := by
  rw [writeBarrier, Action.runOn_bind_ok (runOn_gcBits ha hp), if_neg hbits]
  rfl

/-- Otherwise it does nothing. -/
theorem guarded_cases (ha : h.Arena) (p c : Value) :
    h.guarded p c = h ∨ h.Live p ∧ h.guarded p c = h.flagged p := by
  have herror (v : Value) (e : Error) (hv : h.gcBits v = .error e) :
      (Action.look fun h : Heap => h.gcBits v).runOn h = (.error e, h) := by
    rw [Action.runOn_look, hv]
  have hok (v : Value) (g : GcBits) (hv : h.gcBits v = .ok g) :
      (Action.look fun h : Heap => h.gcBits v).runOn h = (.ok g, h) := by
    rw [Action.runOn_look, hv]
  have hlive (v : Value) (g : GcBits) (hv : h.gcBits v = .ok g) : h.Live v ∧ (h.headerOf v).gc = g := by
    obtain ⟨x, hx, hg⟩ := bind_eq_ok.1 hv
    obtain ⟨hv, -, rfl⟩ := header_eq_ok.1 hx
    exact ⟨hv, pure_eq_ok.1 hg⟩
  unfold guarded
  rcases hp : h.gcBits p with e | g
  · rw [writeBarrier, Action.runOn_bind_error (herror p e hp)]
    exact .inl rfl
  · obtain ⟨hpl, rfl⟩ := hlive p g hp
    by_cases hbits : ((h.headerOf p).gc.old && !(h.headerOf p).gc.remembered) = true
    · rcases hc : h.gcBits c with e | g
      · rw [writeBarrier, Action.runOn_bind_ok (hok p _ hp), if_pos hbits,
          Action.runOn_bind_error (herror c e hc)]
        exact .inl rfl
      · obtain ⟨hcl, rfl⟩ := hlive c g hc
        cases hchild : (h.headerOf c).gc.old
        · rw [runOn_writeBarrier_flagged ha hpl hcl hbits hchild]
          exact .inr ⟨hpl, rfl⟩
        · rw [writeBarrier, Action.runOn_bind_ok (hok p _ hp), if_pos hbits,
            Action.runOn_bind_ok (hok c _ hc), if_neg (by rw [hchild]; nofun)]
          exact .inl rfl
    · rw [runOn_writeBarrier_unnoticed ha hpl hbits]
      exact .inl rfl

/-- Between objects the barrier does not fail. -/
theorem runOn_writeBarrier (ha : h.Arena) (hp : h.Live p) (hc : h.Live c) :
    (writeBarrier p c).runOn h = (.ok ⟨⟩, h.guarded p c) := by
  refine Prod.ext ?_ rfl
  by_cases hbits : ((h.headerOf p).gc.old && !(h.headerOf p).gc.remembered) = true
  · cases hchild : (h.headerOf c).gc.old
    · rw [runOn_writeBarrier_flagged ha hp hc hbits hchild]
    · rw [writeBarrier, Action.runOn_bind_ok (runOn_gcBits ha hp), if_pos hbits,
        Action.runOn_bind_ok (runOn_gcBits ha hc), if_neg (by rw [hchild]; nofun)]
      rfl
  · rw [runOn_writeBarrier_unnoticed ha hp hbits]

/-- The barrier changes no payload and no type. -/
theorem Reports.guarded (ha : h.Arena) (p c : Value) : Reports S h (h.guarded p c) := by
  rcases guarded_cases ha p c with heq | ⟨hp, heq⟩
  · rw [heq]
    exact (Writes.refl S h).reports
  · rw [heq]
    exact .flagged ha hp

/-- Nor does it give keys to symbols. -/
theorem symbols_guarded (ha : h.Arena) (p c : Value) : (h.guarded p c).symbols = h.symbols := by
  rcases guarded_cases ha p c with heq | ⟨-, heq⟩
  · rw [heq]
  · rw [heq, flagged, setFlags, setHeader, putHeader_symbols]

/-- The barrier writes to the header of the parent only. -/
theorem headerOf_guarded_of_ne (ha : h.Arena) (hv : h.Live v) (hne : p ≠ v) (c : Value) :
    (h.guarded p c).headerOf v = h.headerOf v := by
  rcases guarded_cases ha p c with heq | ⟨hp, heq⟩
  · rw [heq]
  · rw [heq]
    exact headerOf_setHeader_of_ne ha hp hv hne

theorem Rewrites.guarded (ha : h.Arena) (p c : Value) : Rewrites S h (h.guarded p c) :=
  (Reports.guarded ha p c).toRewrites

/-! ## Generations -/

/-- An object of the old generation. -/
def Old (h : Heap) (v : Value) : Prop := ∃ g, h.gcBits v = .ok g ∧ g.old = true

/-- An object of the young generation. -/
def Young (h : Heap) (v : Value) : Prop := ∃ g, h.gcBits v = .ok g ∧ g.old = false

/-- An object that is flagged as one of the collector's roots. -/
def Remembered (h : Heap) (v : Value) : Prop := ∃ g, h.gcBits v = .ok g ∧ g.remembered = true

theorem gcBits_eq_ok (ha : h.Arena) {g : GcBits} :
    h.gcBits v = .ok g ↔ h.Live v ∧ (h.headerOf v).gc = g := by
  refine ⟨fun hg => ?_, fun ⟨hv, hg⟩ => by rw [gcBits_eq ha hv, hg]⟩
  obtain ⟨x, hx, hg⟩ := bind_eq_ok.1 hg
  obtain ⟨hv, -, rfl⟩ := header_eq_ok.1 hx
  exact ⟨hv, pure_eq_ok.1 hg⟩

theorem old_iff (ha : h.Arena) : h.Old v ↔ h.Live v ∧ (h.headerOf v).gc.old = true := by
  simp [Old, gcBits_eq_ok ha]

theorem young_iff (ha : h.Arena) : h.Young v ↔ h.Live v ∧ (h.headerOf v).gc.old = false := by
  simp [Young, gcBits_eq_ok ha]

theorem remembered_iff (ha : h.Arena) :
    h.Remembered v ↔ h.Live v ∧ (h.headerOf v).gc.remembered = true := by
  simp [Remembered, gcBits_eq_ok ha]

theorem Young.not_old (hy : h.Young v) : ¬h.Old v := by
  rintro ⟨g, hg, hold⟩
  obtain ⟨g', hg', hyoung⟩ := hy
  rw [hg] at hg'
  cases hg'
  rw [hold] at hyoung
  cases hyoung

theorem young_of_not_old (ha : h.Arena) (hv : h.Live v) (hold : ¬h.Old v) : h.Young v := by
  rw [old_iff ha, not_and, Bool.not_eq_true] at hold
  exact (young_iff ha).2 ⟨hv, hold hv⟩

/-- Nobody gets older or is forgotten. What is new is young. -/
structure Ages (h h' : Heap) : Prop where
  old : ∀ v, h'.Old v ↔ h.Old v
  young : ∀ v, h.Young v → h'.Young v
  remembered : ∀ v, h.Remembered v → h'.Remembered v

theorem Ages.refl (h : Heap) : Ages h h := ⟨fun _ => .rfl, fun _ => id, fun _ => id⟩

theorem Ages.trans (ha : Ages h h') (ha' : Ages h' h'') : Ages h h'' where
  old v := (ha'.old v).trans (ha.old v)
  young v hv := ha'.young v (ha.young v hv)
  remembered v hv := ha'.remembered v (ha.remembered v hv)

theorem Reports.ages (hw : Reports S h h') (ha : h.Arena) : Ages h h' := by
  have ha' := hw.arena ha
  refine ⟨fun v => ?_, fun v hv => ?_, fun v hv => ?_⟩
  · rw [old_iff ha, old_iff ha', hw.live_iff]
    refine and_congr_right fun hv => ?_
    rw [hw.old v hv]
  · obtain ⟨hv, hyoung⟩ := (young_iff ha).1 hv
    exact (young_iff ha').2 ⟨hw.live_iff.2 hv, (hw.old v hv).trans hyoung⟩
  · obtain ⟨hv, hbit⟩ := (remembered_iff ha).1 hv
    exact (remembered_iff ha').2 ⟨hw.live_iff.2 hv, hw.remembered v hv hbit⟩

/-- The barrier takes no notice of young parents. -/
theorem guarded_young (ha : h.Arena) (hp : h.Young p) (c : Value) : h.guarded p c = h := by
  obtain ⟨hp, hyoung⟩ := (young_iff ha).1 hp
  rw [guarded, runOn_writeBarrier_unnoticed ha hp (by rw [hyoung]; nofun)]

/-- An old object that refers to a young one is remembered once the barrier was told. -/
theorem remembered_guarded (ha : h.Arena) (hp : (h.guarded p c).Old p) (hc : (h.guarded p c).Young c) :
    (h.guarded p c).Remembered p := by
  have hw : Reports (fun _ _ => False) h (h.guarded p c) := .guarded ha p c
  obtain ⟨hp, hold⟩ := (old_iff ha).1 (((hw.ages ha).old p).1 hp)
  obtain ⟨hc, hyoung⟩ := (young_iff (hw.arena ha)).1 hc
  have hc := hw.live_iff.1 hc
  rw [hw.old c hc] at hyoung
  refine (remembered_iff (hw.arena ha)).2 ⟨hw.live_iff.2 hp, ?_⟩
  cases hbit : (h.headerOf p).gc.remembered with
  | true => exact hw.remembered p hp hbit
  | false =>
    have hrun := runOn_writeBarrier_flagged ha hp hc (by rw [hold, hbit]; rfl) hyoung
    rw [guarded, hrun, headerOf_flagged ha hp, Header.gc_withGc]

/-! ## Stores -/

/-- What a store of a reference is: the word is written, then the barrier is told. -/
theorem runOn_storeRef_eq (hend : p.offset + k + 8 ≤ h.top) :
    (storeRef p (p.offset + k) c).runOn h = (writeBarrier p c).runOn (h.putWord p k c.offset) :=
  Action.runOn_bind_ok (runOn_writeRef hend)

/-- A reference that is stored is stored, whatever the barrier thinks of it. -/
theorem runOn_storeRef (hend : p.offset + k + 8 ≤ h.top) :
    ((storeRef p (p.offset + k) c).runOn h).2 = (h.putWord p k c.offset).guarded p c := by
  rw [runOn_storeRef_eq hend, guarded]

/-- Between objects a store does not fail. -/
theorem runOn_storeRef_live (ha : (h.putWord p k c.offset).Arena) (hp : (h.putWord p k c.offset).Live p)
    (hc : (h.putWord p k c.offset).Live c) (hend : p.offset + k + 8 ≤ h.top) :
    (storeRef p (p.offset + k) c).runOn h = (.ok ⟨⟩, (h.putWord p k c.offset).guarded p c) := by
  rw [runOn_storeRef_eq hend, runOn_writeBarrier ha hp hc]

end TypedHeap.Heap
