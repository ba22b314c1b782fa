import TypedHeap.Proofs.Heap.Unharmed

/-!
# The remembered set

The flag `REMEMBERED` is in the headers of objects, and the queue is in the barrier. Whoever leaves both to the
barrier finds that they agree: an object has the flag exactly while it waits in the queue.

* `Heap.Tells ps`: the parents `ps` were flagged, and queued in this order.
* `Heap.Books n`: flags, queue and counter agree, when `n` roots were handed over before.

Main results: `Path.tells`, `Books.tells`, `Books.runOn_takeRemembered`.
-/

namespace TypedHeap.Heap

variable {h h' h'' : Heap} {p c v : Value} {t : TypeRef} {n : Nat} {ps qs roots : List Value} {g : GcBits}
  {S : Value → Nat → Prop}

/-! ## What is flagged and queued -/

/-- Between two moments exactly the parents `ps` got the flag, and they were queued in this order. -/
structure Tells (ps : List Value) (h h' : Heap) : Prop where
  queue : ∀ {roots}, h.barrier = .remembering roots → h'.barrier = .remembering (roots ++ ps)
  hits : h'.stats.barrierHits = h.stats.barrierHits + ps.length
  remembered : ∀ v, h'.Remembered v ↔ h.Remembered v ∨ v ∈ ps
  fresh : ∀ p ∈ ps, ¬h.Remembered p
  nodup : ps.Nodup

namespace Tells

/-- Nobody was told anything. -/
theorem none (queue : h'.barrier = h.barrier) (hits : h'.stats.barrierHits = h.stats.barrierHits)
    (remembered : ∀ v, h'.Remembered v ↔ h.Remembered v) : Tells [] h h' where
  queue hroots := by rw [queue, hroots, List.append_nil]
  hits := hits
  remembered v := by rw [remembered v, or_iff_left List.not_mem_nil]
  fresh := nofun
  nodup := .nil

theorem refl (h : Heap) : Tells [] h h := none rfl rfl fun _ => .rfl

theorem trans (ht : Tells ps h h') (ht' : Tells qs h' h'') : Tells (ps ++ qs) h h'' where
  queue hroots := by rw [ht'.queue (ht.queue hroots), List.append_assoc]
  hits := by rw [ht'.hits, ht.hits, List.length_append, Nat.add_assoc]
  remembered v := by rw [ht'.remembered, ht.remembered, List.mem_append, or_assoc]
  fresh p hp := by
    rcases List.mem_append.1 hp with hp | hq
    · exact ht.fresh p hp
    · exact fun hbefore => ht'.fresh p hq ((ht.remembered p).2 (.inl hbefore))
  nodup := ht.nodup.append ht'.nodup fun _ hp hq => ht'.fresh _ hq ((ht.remembered _).2 (.inr hp))

/-- The parents that were queued are those that have the flag now and did not have it before. -/
theorem mem_iff (ht : Tells ps h h') : v ∈ ps ↔ h'.Remembered v ∧ ¬h.Remembered v := by
  rw [ht.remembered v]
  exact ⟨fun hv => ⟨.inr hv, ht.fresh v hv⟩, fun ⟨hor, hnot⟩ => hor.resolve_left hnot⟩

end Tells

/-! ## The barrier -/

/-- The barrier takes no notice of parents that it has queued already. -/
theorem guarded_remembered (ha : h.Arena) (hp : h.Remembered p) (c : Value) : h.guarded p c = h := by
  obtain ⟨hp, hbit⟩ := (remembered_iff ha).1 hp
  have hskip : ¬((h.headerOf p).gc.old && !(h.headerOf p).gc.remembered) = true := by
    rw [hbit, Bool.not_true, Bool.and_false]
    exact Bool.false_ne_true
  rw [guarded, runOn_writeBarrier_unnoticed ha hp hskip]

theorem flagged_tells (ha : h.Arena) (hp : h.Live p) (hnew : ¬h.Remembered p) : Tells [p] h (h.flagged p) where
  queue hroots := by
    show h.barrier.queue p = _
    rw [hroots]
    rfl
  hits := rfl
  remembered v := by
    have hr : Reports (fun _ _ => False) h (h.flagged p) := .flagged ha hp
    rw [remembered_iff (hr.arena ha), remembered_iff ha, hr.live_iff, List.mem_singleton]
    by_cases hvp : v = p
    · rw [hvp, headerOf_flagged ha hp, Header.gc_withGc]
      exact ⟨fun _ => .inr rfl, fun _ => ⟨hp, rfl⟩⟩
    · rw [or_iff_left hvp]
      refine and_congr_right fun hv => ?_
      have hother : (h.flagged p).headerOf v = h.headerOf v := headerOf_setHeader_of_ne ha hp hv (Ne.symm hvp)
      rw [hother]
  fresh v hv := by rwa [List.mem_singleton.1 hv]
  nodup := List.nodup_singleton p

/-- The barrier flags and queues its parent, or does nothing. -/
theorem guarded_tells (ha : h.Arena) (p c : Value) : Tells [] h (h.guarded p c) ∨ Tells [p] h (h.guarded p c) := by
  by_cases hp : h.Remembered p
  · rw [guarded_remembered ha hp]
    exact .inl (.refl h)
  · rcases guarded_cases ha p c with heq | ⟨hlive, heq⟩
    · rw [heq]
      exact .inl (.refl h)
    · rw [heq]
      exact .inr (flagged_tells ha hlive hp)

/-! ## Steps -/

theorem Writes.tells (hw : Writes S h h') (ha : h.Arena) : Tells [] h h' := by
  refine .none hw.queue hw.hits fun v => ?_
  rw [remembered_iff (hw.arena ha), remembered_iff ha, hw.live_iff]
  exact and_congr_right fun hv => by rw [hw.header v hv]

/-- A new object has no flags. -/
theorem Added.tells (hadded : Added h h' v t n) (ha : h.Arena) : Tells [] h h' := by
  refine .none hadded.queue hadded.hits fun w => ⟨fun hw => ?_, (hadded.ages ha).remembered w⟩
  obtain ⟨⟨m, hm⟩, hbit⟩ := (remembered_iff hadded.arena).1 hw
  rw [hadded.size?] at hm
  by_cases hwv : w = v
  · rw [hwv, hadded.gc] at hbit
    cases hbit
  · rw [if_neg hwv] at hm
    rw [hadded.headers w ⟨m, hm⟩] at hbit
    exact (remembered_iff ha).2 ⟨⟨m, hm⟩, hbit⟩

/-- A step queues one parent at most. -/
theorem Step.tells (step : Step S h h') (hs : h.Sound) : ∃ ps, ps.length ≤ 1 ∧ Tells ps h h' := by
  rcases step.wrote hs with ⟨r, -, rfl⟩ | ⟨v, t, n, hadded⟩ | hw
  · exact ⟨[], Nat.zero_le 1, .none rfl rfl fun _ => .rfl⟩
  · exact ⟨[], Nat.zero_le 1, hadded.tells hs.arena⟩
  · cases hw with
    | plain writes => exact ⟨[], Nat.zero_le 1, writes.tells hs.arena⟩
    | @told h₁ p c writes =>
      have hwrote := writes.tells hs.arena
      rcases guarded_tells (writes.arena hs.arena) p c with htold | htold
      · exact ⟨[], Nat.zero_le 1, hwrote.trans htold⟩
      · exact ⟨[p], Nat.le_refl 1, hwrote.trans htold⟩

theorem Path.tells (path : Path S h h') (hs : h.Sound) : ∃ ps, Tells ps h h' := by
  refine path.preserves (P := fun h' => ∃ ps, Tells ps h h') hs (fun step hs hbefore => ?_) ⟨[], .refl h⟩
  obtain ⟨ps, hps⟩ := hbefore
  obtain ⟨qs, -, hqs⟩ := step.tells hs
  exact ⟨ps ++ qs, hps.trans hqs⟩

/-! ## The collector -/

/-- Other flags may change as they like. -/
theorem setFlags_tells (ha : h.Arena) (hv : h.Live v) (hsame : g.remembered = (h.headerOf v).gc.remembered) :
    Tells [] h (h.setFlags v g) := by
  have hr : Rewrites (fun _ _ => False) h (h.setFlags v g) := .setFlags ha hv g
  refine .none putHeader_barrier (congrArg HeapStats.barrierHits putHeader_stats) fun w => ?_
  rw [remembered_iff (hr.arena ha), remembered_iff ha, hr.live_iff]
  refine and_congr_right fun hw => ?_
  by_cases hvw : v = w
  · subst hvw
    rw [setFlags, headerOf_setHeader (Nat.le_trans (ha.header_end_le hv) ha.reach) (word_withGc_lt _),
      Header.gc_withGc, hsame]
  · rw [setFlags, headerOf_setHeader_of_ne ha hv hw hvw]

theorem Forgets.gcBits_eq (hf : Forgets ps h h') (ha : h.Arena) (hall : ∀ v, h.Remembered v → v ∈ ps) (v : Value) :
    h'.gcBits v = (h.gcBits v).map fun g => { g with remembered := false } := by
  by_cases hv : h.Live v
  · rw [Heap.gcBits_eq ha hv, Heap.gcBits_eq (hf.arena ha) (hf.live_iff.2 hv)]
    refine congrArg Except.ok ?_
    by_cases hmem : v ∈ ps
    · exact hf.forgotten v hmem hv
    · have hbit : (h.headerOf v).gc.remembered = false :=
        Bool.eq_false_iff.2 fun hbit => hmem (hall v ((remembered_iff ha).2 ⟨hv, hbit⟩))
      rw [hf.others v hmem hv, ← hbit]
  · have hsize : h.objects.lookup v.offset = Option.none :=
      Option.eq_none_iff_forall_ne_some.2 fun n hn => hv ⟨n, hn⟩
    simp only [gcBits, header, objectSize, hf.objects, hsize]
    rfl

/-- Nobody is remembered when all flags are cleared. -/
theorem not_remembered_of_gcBits (hall : h'.gcBits v = (h.gcBits v).map fun g => { g with remembered := false }) :
    ¬h'.Remembered v := by
  rintro ⟨g, hg, hbit⟩
  rw [hall] at hg
  cases hbits : h.gcBits v with
  | error e =>
    rw [hbits] at hg
    cases hg
  | ok b =>
    rw [hbits] at hg
    cases hg
    cases hbit

/-! ## Keeping books -/

/-- The objects that have the flag are those that wait in the queue, each of them once, and with those that were
handed over before they are as many as the barrier has counted. -/
structure Books (taken : Nat) (h : Heap) : Prop where
  queued : h.barrier = .remembering h.barrier.roots
  remembered : ∀ v, h.Remembered v ↔ v ∈ h.barrier.roots
  nodup : h.barrier.roots.Nodup
  hits : h.stats.barrierHits = h.barrier.roots.length + taken

namespace Books

theorem rooted (hb : Books n h) (ha : h.Arena) : h.Rooted := fun v hv =>
  ((remembered_iff ha).1 ((hb.remembered v).2 hv)).1

theorem roots_tells (hb : Books n h) (ht : Tells ps h h') : h'.barrier.roots = h.barrier.roots ++ ps := by
  rw [ht.queue hb.queued]
  rfl

/-- What is told is entered. -/
theorem tells (hb : Books n h) (ht : Tells ps h h') : Books n h' := by
  have hroots := hb.roots_tells ht
  refine ⟨?_, fun v => ?_, ?_, ?_⟩
  · rw [hroots]
    exact ht.queue hb.queued
  · rw [hroots, ht.remembered, hb.remembered, List.mem_append]
  · rw [hroots]
    exact hb.nodup.append ht.nodup fun v hv hps => ht.fresh v hps ((hb.remembered v).2 hv)
  · rw [hroots, ht.hits, hb.hits, List.length_append]
    omega

/-- The queue is handed over, and the books are closed. -/
theorem runOn_takeRemembered (hb : Books n h) (hs : h.Sound) :
    ∃ h', takeRemembered.runOn h = (.ok h.barrier.roots, h') ∧ h'.barrier.roots = [] ∧
      (∀ v, h'.gcBits v = (h.gcBits v).map fun g => { g with remembered := false }) ∧
      Books (n + h.barrier.roots.length) h' := by
  obtain ⟨h', hrun, hforgets, hqueue⟩ := (hb.rooted hs.arena).runOn_takeRemembered hs
  have hbits := hforgets.gcBits_eq hs.arena fun v => (hb.remembered v).1
  have hempty : h'.barrier = .remembering [] := by
    rw [hqueue, hb.queued]
    rfl
  refine ⟨h', hrun, by rw [hempty]; rfl, hbits, by rw [hempty]; rfl, fun v => ?_, by rw [hempty]; exact .nil, ?_⟩
  · rw [hempty]
    exact ⟨fun hv => absurd hv (not_remembered_of_gcBits (hbits v)), nofun⟩
  · rw [hforgets.stats, hempty, hb.hits, Nat.add_comm]
    exact (Nat.zero_add _).symm

end Books

end TypedHeap.Heap
