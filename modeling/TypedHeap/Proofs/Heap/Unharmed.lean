import TypedHeap.Proofs.Heap.Runs

/-!
# Objects that nothing happens to

What is new is young, and the barrier takes no notice of young parents. So whoever touches nothing but new
objects changes no header of an object that was there and queues nothing, however much is stored.

* `Heap.Unharmed`: every object is what it was, and so is the queue of the barrier.
* `Heap.Intact`: an object is what it was.
* `Heap.Quiet S`: payload bytes changed in places that `S` names, and nothing else about objects.
* `Heap.Rooted`: what waits for the collector are objects.
* `Heap.Forgets`: the collector's roots have their flags cleared.

Main results: `Quiet.unharmed`, `Path.unharmed`, `Path.rooted`, `Rooted.runOn_takeRemembered`.
-/

namespace TypedHeap.Heap

variable {h h' : Heap} {p c v : Value} {S : Value → Nat → Prop}

/-- Every object keeps its payload, its type, its size and the collector's flags, and the queue of the barrier
is what it was. -/
structure Unharmed (h h' : Heap) : Prop where
  size : ∀ v n, h.objectSize v = .ok n → h'.objectSize v = .ok n
  type : ∀ v n, h.objectSize v = .ok n → h'.typeOf v = h.typeOf v
  payload : ∀ v n, h.objectSize v = .ok n → h'.payload v = h.payload v
  gcBits : ∀ v n, h.objectSize v = .ok n → h'.gcBits v = h.gcBits v
  queue : h'.barrier = h.barrier

/-- An object has the payload, the type, the size and the collector's flags that it had. -/
structure Intact (h h' : Heap) (v : Value) : Prop where
  size : h'.objectSize v = h.objectSize v
  type : h'.typeOf v = h.typeOf v
  payload : h'.payload v = h.payload v
  gcBits : h'.gcBits v = h.gcBits v

/-- An object that nobody may write to is what it was, if its header is. -/
theorem Keeps.intact (hk : Keeps S h h') (hs : h.Sound) (hs' : h'.Sound) (hv : h.Live v) (hS : ∀ k, ¬S v k)
    (hheader : h'.headerOf v = h.headerOf v) : Intact h h' v := by
  obtain ⟨n, hn⟩ := id hv
  obtain ⟨t, ht⟩ := hs.exists_typeOf hv
  refine ⟨?_, ?_, hs.payload_kept hs' hk hv hS, ?_⟩
  · rw [objectSize_eq_ok.2 hn, objectSize_eq_ok.2 (hk.size? hn)]
  · rw [ht, hk.typeOf ht]
  · rw [gcBits_eq hs.arena hv, gcBits_eq hs'.arena (hk.live hv), hheader]

/-- Payload bytes changed only where `S` allows it. Headers did not, nor did the queue of the barrier. -/
structure Quiet (S : Value → Nat → Prop) (h h' : Heap) : Prop extends Keeps S h h' where
  header : ∀ v, h.Live v → h'.headerOf v = h.headerOf v
  queue : h'.barrier = h.barrier

namespace Quiet

theorem trans {h'' : Heap} (hq : Quiet S h h') (hq' : Quiet S h' h'') : Quiet S h h'' where
  toKeeps := hq.toKeeps.trans hq'.toKeeps
  header v hv := (hq'.header v (hq.live hv)).trans (hq.header v hv)
  queue := hq'.queue.trans hq.queue

/-- Bytes that were written, and are again what they were, were not changed. -/
theorem restored (hq : Quiet S h h')
    (hsame : ∀ v n k, h.size? v = some n → k < n → S v k → h'.byte v k = h.byte v k) :
    Quiet (fun _ _ => False) h h' where
  toExtends := hq.toExtends
  bytes {v n k} hn hk _ := by
    by_cases hS : S v k
    · exact hsame v n k hn hk hS
    · exact hq.bytes hn hk hS
  header := hq.header
  queue := hq.queue

/-- Whoever changes no byte of an object that was there does no harm. -/
theorem unharmed (hq : Quiet S h h') (hs : h.Sound) (hs' : h'.Sound) (hS : ∀ v, h.Live v → ∀ k, ¬S v k) :
    Unharmed h h' := by
  have hintact {v : Value} {n : Nat} (hn : h.objectSize v = .ok n) : Intact h h' v := by
    have hv : h.Live v := ⟨n, objectSize_eq_ok.1 hn⟩
    exact hq.intact hs hs' hv (hS v hv) (hq.header v hv)
  exact ⟨fun v n hn => (hintact hn).size.trans hn, fun v n hn => (hintact hn).type,
    fun v n hn => (hintact hn).payload, fun v n hn => (hintact hn).gcBits, hq.queue⟩

end Quiet

theorem Writes.quiet (hw : Writes S h h') : Quiet S h h' := ⟨hw.toRewrites.keeps, hw.header, hw.queue⟩

/-! ## Quiet steps -/

/-- A step changes no header but that of an object all of which it may touch. -/
theorem Step.header_eq (step : Step S h h') (hs : h.Sound) (hv : h.Live v) (hS : ¬∀ j, S v j) :
    h'.headerOf v = h.headerOf v := by
  rcases step.wrote hs with ⟨r, -, rfl⟩ | ⟨w, t, n, hadded⟩ | hw
  · rfl
  · exact hadded.headers v hv
  · cases hw with
    | plain writes => exact writes.header v hv
    | told writes allowed =>
      have hne : _ ≠ v := fun heq => hS (heq ▸ allowed)
      rw [headerOf_guarded_of_ne (writes.arena hs.arena) (writes.live_iff.2 hv) hne, writes.header v hv]

theorem Path.header_eq (path : Path S h h') (hs : h.Sound) (hv : h.Live v) (hS : ¬∀ j, S v j) :
    h'.headerOf v = h.headerOf v := by
  induction path with
  | refl => rfl
  | tail rest step ih =>
    exact (step.header_eq (Path.sound rest hs) ((Path.keeps rest hs).live hv) hS).trans ih

/-- A step queues nothing if it may touch all of young objects only. -/
theorem Step.queue_eq (step : Step S h h') (hs : h.Sound) (hS : ∀ p, h.Live p → (∀ j, S p j) → h.Young p) :
    h'.barrier = h.barrier := by
  rcases step.wrote hs with ⟨r, -, rfl⟩ | ⟨v, t, n, hadded⟩ | hw
  · rfl
  · exact hadded.queue
  · cases hw with
    | plain writes => exact writes.queue
    | @told h₁ p c writes allowed =>
      have ha₁ := writes.arena hs.arena
      have hunnoticed : h₁.guarded p c = h₁ := by
        rcases guarded_cases ha₁ p c with heq | ⟨hp, -⟩
        · exact heq
        · have hp := writes.live_iff.1 hp
          obtain ⟨-, hyoung⟩ := (young_iff hs.arena).1 (hS p hp allowed)
          refine guarded_young ha₁ ((young_iff ha₁).2 ⟨writes.live_iff.2 hp, ?_⟩) c
          rw [writes.header p hp]
          exact hyoung
      rw [hunnoticed]
      exact writes.queue

/-- By induction on the path: what was not there in front is young all the way. -/
theorem Path.queue_eq (path : Path (fun v _ => ¬h.Live v) h h') (hs : h.Sound) : h'.barrier = h.barrier := by
  induction path with
  | refl => rfl
  | @tail h₁ h₂ rest step ih =>
    have hs₁ := Path.sound rest hs
    have hyoung (p : Value) (hp : h₁.Live p) (hnew : Nat → ¬h.Live p) : h₁.Young p := by
      refine young_of_not_old hs₁.arena hp fun hold => hnew 0 ?_
      exact ((old_iff hs.arena).1 (((Path.ages rest hs).old p).1 hold)).1
    exact (step.queue_eq hs₁ hyoung).trans ih

/-- Whoever touches new objects only does no harm to the others. -/
theorem Path.unharmed (path : Path (fun v _ => ¬h.Live v) h h') (hs : h.Sound) : Unharmed h h' := by
  have hquiet : Quiet (fun v _ => ¬h.Live v) h h' :=
    ⟨Path.keeps path hs, fun v hv => Path.header_eq path hs hv fun hdead => hdead 0 hv, Path.queue_eq path hs⟩
  exact hquiet.unharmed hs (Path.sound path hs) fun _ hv _ hdead => hdead hv

/-! ## Roots -/

/-- What waits for the collector are objects. -/
def Rooted (h : Heap) : Prop := ∀ v ∈ h.barrier.roots, h.Live v

theorem Rooted.of_queue (hr : h.Rooted) (hqueue : h'.barrier = h.barrier) (hlive : ∀ v, h.Live v → h'.Live v) :
    h'.Rooted := by
  intro v hv
  rw [hqueue] at hv
  exact hlive v (hr v hv)

/-- The barrier queues objects. -/
theorem Rooted.guarded (hr : h.Rooted) (ha : h.Arena) (p c : Value) : (h.guarded p c).Rooted := by
  have hlive : ∀ v, h.Live v → (h.guarded p c).Live v := fun v =>
    (Rewrites.guarded (S := fun _ _ => False) ha p c).live_iff.2
  intro v hv
  refine hlive v ?_
  rcases guarded_cases ha p c with heq | ⟨hp, heq⟩
  · rw [heq] at hv
    exact hr v hv
  · rw [heq] at hv
    have hv : v ∈ (h.barrier.queue p).roots := hv
    unfold Rooted at hr
    cases hbarrier : h.barrier with
    | off =>
      rw [hbarrier] at hv
      cases hv
    | remembering roots =>
      rw [hbarrier] at hv hr
      rcases List.mem_append.1 hv with hv | hv
      · exact hr v hv
      · rwa [List.mem_singleton.1 hv]

theorem Step.rooted (step : Step S h h') (hs : h.Sound) (hr : h.Rooted) : h'.Rooted := by
  rcases step.wrote hs with ⟨r, -, rfl⟩ | ⟨v, t, n, hadded⟩ | hw
  · exact hr
  · exact hr.of_queue hadded.queue fun _ hv => hadded.keeps.live hv
  · cases hw with
    | plain writes => exact hr.of_queue writes.queue fun _ => writes.live_iff.2
    | told writes =>
      exact (hr.of_queue writes.queue fun _ => writes.live_iff.2).guarded (writes.arena hs.arena) _ _

theorem Path.rooted (path : Path S h h') (hs : h.Sound) (hr : h.Rooted) : h'.Rooted :=
  path.preserves hs Step.rooted hr

/-- The flag `REMEMBERED` of some objects was cleared. No other flag changed, and nothing else that a heap holds. -/
structure Forgets (vs : List Value) (h h' : Heap) : Prop extends Rewrites (fun _ _ => False) h h' where
  forgotten : ∀ v ∈ vs, h.Live v → (h'.headerOf v).gc = { (h.headerOf v).gc with remembered := false }
  others : ∀ v, v ∉ vs → h.Live v → (h'.headerOf v).gc = (h.headerOf v).gc
  stats : h'.stats = h.stats
  symbols : h'.symbols = h.symbols

theorem Forgets.refl (h : Heap) : Forgets [] h h := ⟨.refl _ h, nofun, fun _ _ _ => rfl, rfl, rfl⟩

theorem Forgets.flags (ha : h.Arena) (hv : h.Live v) :
    Forgets [v] h (h.setFlags v { (h.headerOf v).gc with remembered := false }) where
  toRewrites := .setFlags ha hv _
  forgotten w hw _ := by
    obtain rfl := List.mem_singleton.1 hw
    rw [setFlags, headerOf_setHeader (Nat.le_trans (ha.header_end_le hv) ha.reach) (word_withGc_lt _), Header.gc_withGc]
  others w hw hlive := by
    have hne : v ≠ w := fun heq => hw (List.mem_singleton.2 heq.symm)
    rw [setFlags, headerOf_setHeader_of_ne ha hv hlive hne]
  stats := putHeader_stats
  symbols := putHeader_symbols

theorem Forgets.trans {vs ws : List Value} {h'' : Heap} (hf : Forgets vs h h') (hf' : Forgets ws h' h'') :
    Forgets (vs ++ ws) h h'' where
  toRewrites := hf.toRewrites.trans hf'.toRewrites
  forgotten v hv hlive := by
    have hlive' := hf.live_iff.2 hlive
    by_cases hvs : v ∈ vs
    · have hfirst := hf.forgotten v hvs hlive
      by_cases hws : v ∈ ws
      · rw [hf'.forgotten v hws hlive', hfirst]
      · rw [hf'.others v hws hlive', hfirst]
    · rw [hf'.forgotten v ((List.mem_append.1 hv).resolve_left hvs) hlive', hf.others v hvs hlive]
  others v hv hlive := by
    rw [List.mem_append, not_or] at hv
    rw [hf'.others v hv.2 (hf.live_iff.2 hlive), hf.others v hv.1 hlive]
  stats := hf'.stats.trans hf.stats
  symbols := hf'.symbols.trans hf.symbols

theorem runOn_forget (ha : h.Arena) (hv : h.Live v) :
    (forget v).runOn h = (.ok ⟨⟩, h.setFlags v { (h.headerOf v).gc with remembered := false }) := by
  rw [forget, Action.runOn_bind_ok (runOn_gcBits ha hv), runOn_setFlags ha hv]

/-- Objects are forgotten, one after the other. -/
theorem runOn_forM_forget {vs : List Value} (ha : h.Arena) (hvs : ∀ v ∈ vs, h.Live v) :
    ∃ h', (vs.forM forget).runOn h = (.ok ⟨⟩, h') ∧ Forgets vs h h' ∧ h'.barrier = h.barrier := by
  induction vs generalizing h with
  | nil => exact ⟨h, rfl, .refl h, rfl⟩
  | cons v vs ih =>
    rw [List.forall_mem_cons] at hvs
    have hf := Forgets.flags ha hvs.1
    obtain ⟨h', hrun, hrest, hqueue⟩ := ih (hf.arena ha) fun w hw => hf.live_iff.2 (hvs.2 w hw)
    refine ⟨h', ?_, hf.trans hrest, hqueue.trans putHeader_barrier⟩
    exact (Action.runOn_bind_ok (runOn_forget ha hvs.1)).trans hrun

/-- That fails at the first of them that is no object. Those in front of it are forgotten. -/
theorem forget_fails {vs : List Value} {e : Error} (ha : h.Arena) (hrun : (vs.forM forget).runOn h = (.error e, h')) :
    ∃ ws v rest, vs = ws ++ v :: rest ∧ (∀ w ∈ ws, h.Live w) ∧ ¬h.Live v ∧ Forgets ws h h' ∧
      h'.barrier = h.barrier := by
  induction vs generalizing h with
  | nil => cases hrun
  | cons v vs ih =>
    have hrun : (forget v >>= fun _ => vs.forM forget).runOn h = (.error e, h') := hrun
    by_cases hv : h.Live v
    · have hf := Forgets.flags ha hv
      rw [Action.runOn_bind_ok (runOn_forget ha hv)] at hrun
      obtain ⟨ws, w, rest, rfl, hws, hw, hforgets, hqueue⟩ := ih (hf.arena ha) hrun
      refine ⟨v :: ws, w, rest, rfl, ?_, fun hlive => hw (hf.live_iff.2 hlive), hf.trans hforgets,
        hqueue.trans putHeader_barrier⟩
      exact List.forall_mem_cons.2 ⟨hv, fun u hu => hf.live_iff.1 (hws u hu)⟩
    · cases hbits : h.gcBits v with
      | ok g => exact absurd ((gcBits_eq_ok ha).1 hbits).1 hv
      | error err =>
        have hforget : (forget v).runOn h = (.error err, h) :=
          Action.runOn_bind_error (by rw [Action.runOn_look, hbits])
        cases (Action.runOn_bind_error hforget).symm.trans hrun
        exact ⟨[], v, vs, rfl, nofun, hv, .refl _, rfl⟩

/-- Emptying the queue leaves all flags as they are. -/
theorem Forgets.cleared (h : Heap) : Forgets [] h { h with barrier := h.barrier.cleared } :=
  ⟨.withBarrier _ h _, nofun, fun _ _ _ => rfl, rfl, rfl⟩

theorem runOn_drainRoots (h : Heap) :
    drainRoots.runOn h = (.ok h.barrier.roots, { h with barrier := h.barrier.cleared }) := rfl

/-- Roots that are objects are handed over, and forgotten. -/
theorem Rooted.runOn_takeRemembered (hr : h.Rooted) (hs : h.Sound) :
    ∃ h', takeRemembered.runOn h = (.ok h.barrier.roots, h') ∧ Forgets h.barrier.roots h h' ∧
      h'.barrier = h.barrier.cleared := by
  have hcleared := Forgets.cleared h
  obtain ⟨h', hrun, hf, hqueue⟩ := runOn_forM_forget (hcleared.arena hs.arena) fun v hv => hcleared.live_iff.2 (hr v hv)
  refine ⟨h', ?_, hcleared.trans hf, hqueue⟩
  rw [takeRemembered, Action.runOn_bind_ok (runOn_drainRoots h), Action.runOn_bind_ok hrun]
  rfl

/-- The roots were to be handed over, and one of them is no object. Those in front of it are forgotten, and all of
them are gone. -/
def LosesRoots (h h' : Heap) : Prop :=
  ∃ vs v rest, h.barrier.roots = vs ++ v :: rest ∧ (∀ w ∈ vs, h.Live w) ∧ ¬h.Live v ∧ Forgets vs h h' ∧
    h'.barrier = h.barrier.cleared

theorem not_rooted_of_losesRoots (hl : LosesRoots h h') : ¬h.Rooted := by
  obtain ⟨vs, v, rest, hroots, -, hdead, -⟩ := hl
  intro hr
  exact hdead (hr v (hroots ▸ List.mem_append_right vs List.mem_cons_self))

/-- Handing over fails at the first root that is no object. -/
theorem losesRoots_of_takeRemembered {e : Error} (hs : h.Sound) (hrun : takeRemembered.runOn h = (.error e, h')) :
    LosesRoots h h' := by
  have hcleared := Forgets.cleared h
  have hforget : (h.barrier.roots.forM forget).runOn { h with barrier := h.barrier.cleared } = (.error e, h') := by
    rw [takeRemembered, Action.runOn_bind_ok (runOn_drainRoots h)] at hrun
    rcases hforgot : (h.barrier.roots.forM forget).runOn { h with barrier := h.barrier.cleared } with ⟨err | _, h₁⟩
    · cases (Action.runOn_bind_error hforgot).symm.trans hrun
      rfl
    · rw [Action.runOn_bind_ok hforgot] at hrun
      cases hrun
  obtain ⟨vs, v, rest, hroots, hvs, hdead, hf, hqueue⟩ := forget_fails (hcleared.arena hs.arena) hforget
  exact ⟨vs, v, rest, hroots, fun w hw => hcleared.live_iff.1 (hvs w hw), fun hv => hdead (hcleared.live_iff.2 hv),
    hcleared.trans hf, hqueue⟩

end TypedHeap.Heap
