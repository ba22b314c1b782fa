import TypedHeap.Object.Box
import TypedHeap.Proofs.Heap.Steps

/-!
# Runs of the operations that others are made of

Each operation leads along a path of steps, whether it succeeds or fails. It touches what its caller
allows it to touch, and what it has made itself.

* `Heap.Ready S`: a sound heap, and permission to touch what is not there yet.
* `Heap.NewObject`: what there is to know about a new object.
* `Heap.allocate_meets`, `writeBytes_meets`, `copyBytes_meets`, `storeRef_meets`, …: the operations.

Main result: `allocate_meets`.
-/

namespace TypedHeap.Heap

open TypedHeap.Action (Meets)

variable {h h' h'' : Heap} {a p v w x : Value} {f : ArrayInfo} {t : TypeRef} {d : Descriptor} {l : Layout}
  {k n extra src : Nat} {S : Value → Nat → Prop} {bs : List UInt8}

/-! ## Permission -/

/-- A sound heap, and permission to touch objects that are not there yet. -/
structure Ready (S : Value → Nat → Prop) (h : Heap) : Prop where
  sound : h.Sound
  fresh : ∀ {v}, ¬h.Live v → ∀ j, S v j

namespace Ready

theorem along (hr : Ready S h) (path : Path S h h') : Ready S h' where
  sound := path.sound hr.sound
  fresh hv j := hr.fresh (fun hl => hv ((path.keeps hr.sound).live hl)) j

theorem learns (hr : Ready S h) (hl : h.Learns h') : Ready S h' := hr.along (.learns hl)

/-- What needs no permission touches nothing that was there. -/
theorem narrow {α : Type} {x : HeapM α} {Q : α → Heap → Prop} (hr : Ready S h)
    (hx : ∀ {S'}, Ready S' h → Meets (Path S') x h Q) :
    Meets (Path S) x h fun a h' => Keeps (fun w _ => ¬h.Live w) h h' ∧ Q a h' := by
  have hnew : Ready (fun w _ => ¬h.Live w) h := ⟨hr.sound, fun hv _ => hv⟩
  have hkept := (hx hnew).kept.keeps hr.sound
  exact ⟨(hx hr).kept, fun a ha => ⟨hkept, (hx hr).answer a ha⟩⟩

end Ready

/-! ## Questions about types -/

section Questions

variable {α β : Type} {x : HeapM α} {y : α → HeapM β}

theorem learns_meets {Q : α → Heap → Prop} (hx : Meets Learns x h Q) : Meets (Path S) x h Q :=
  hx.weaken fun _ => Path.learns

/-- A question in front of an operation lets the registry learn, and nothing else. -/
theorem learns_bind {P : α → Heap → Prop} {Q : β → Heap → Prop} (hx : Meets Learns x h P)
    (hy : ∀ a h', h.Learns h' → P a h' → Meets (Path S) (y a) h' Q) : Meets (Path S) (x >>= y) h Q := by
  have hlearned : Meets (Path S) x h fun a h' => h.Learns h' ∧ P a h' :=
    ⟨.learns hx.kept, fun a ha => ⟨hx.kept, hx.answer a ha⟩⟩
  exact Meets.bind hlearned fun a h' _ ha => hy a h' ha.1 ha.2

end Questions

/-! ## Writing -/

theorem writeBytes_meets (hend : v.offset + k + bs.length ≤ h.top) (step : Step S h (h.put v k bs)) :
    Meets (Path S) (writeBytes (v.offset + k) bs) h fun _ h' => h' = h.put v k bs :=
  .of_runOn (runOn_writeBytes hend) (.step step) fun _ _ => rfl

/-- A copy of bytes that do not all exist fails and changes nothing. -/
theorem copyBytes_meets (hend : v.offset + k + n ≤ h.top)
    (step : Step S h (h.put v k (h.memory.window src n))) :
    Meets (Path S) (copyBytes src n (v.offset + k)) h fun _ h' =>
      h' = h.put v k (h.memory.window src n) := by
  by_cases hsrc : src + n ≤ h.top
  · exact .of_runOn (runOn_copyBytes hsrc hend) (.step step) fun _ _ => rfl
  · exact .of_runOn (runOn_copyBytes_error (Nat.not_le.1 hsrc)) .refl nofun

theorem storeRef_meets (hend : p.offset + k + 8 ≤ h.top)
    (step : Step S h ((h.putWord p k x.offset).guarded p x)) :
    Meets (Path S) (storeRef p (p.offset + k) x) h fun _ h' =>
      h' = (h.putWord p k x.offset).guarded p x := by
  refine ⟨?_, fun _ _ => runOn_storeRef hend⟩
  rw [runOn_storeRef hend]
  exact .step step

/-! ## Allocation -/

/-- `v` is a new object of type `t`. It is young and all zero but for its length, and belongs to no array. -/
structure NewObject (h h' : Heap) (v : Value) (t : TypeRef) (extra : Nat) : Prop where
  fresh : ¬h.Live v
  type : h'.typeOf v = .ok t
  young : h'.Young v
  /-- Nothing else is new. -/
  only : ∀ w, h'.Live w → h.Live w ∨ w = v
  kept : Keeps (fun _ _ => False) h h'
  length : ∀ {d}, h'.types.descriptor t = .ok d → hasLength d.kind = true → h'.word v 0 = extra
  rank : ∀ {d}, h'.types.descriptor t = .ok d → d.kind = .array →
    ∃ p, d.params.get 1 = .ok p ∧ p.int?.getD (-1) = extra
  zero : ∀ {d k}, h'.types.descriptor t = .ok d → (hasLength d.kind = true → refSize ≤ k) →
    h'.byte v k = 0
  arrays : ∀ {a f}, h'.IsArray a f → h.IsArray a f

theorem newObject_allocated (hs : h.Sound) (hl : h.Learns h') (hd : h'.types.descriptor t = .ok d)
    (hn : h'.SizeFor d extra n) (hv : v.offset = h'.nextStart) (hend : v.offset + n ≤ h'.limit) :
    NewObject h (h'.allocated v d extra n) v t extra := by
  have hs' := hs.learns hl
  have hadded := allocated_added hs' hd hn hv hend
  have hkept : Keeps (fun _ _ => False) h (h'.allocated v d extra n) := (hl.keeps _).trans hadded.keeps
  have hdesc {e : Descriptor} (he : (h'.allocated v d extra n).types.descriptor t = .ok e) : e = d := by
    rw [types, hadded.registry] at he
    rw [show h'.registry.table.descriptor t = .ok d from hd] at he
    cases he
    rfl
  refine ⟨?_, hadded.typeOf, hadded.young, ?_, hkept, ?_, ?_, ?_, ?_⟩
  · exact fun hlive => hadded.fresh (hl.extends.live hlive)
  · rintro w ⟨m, hm⟩
    by_cases hw : w = v
    · exact .inr hw
    · rw [hadded.size?, if_neg hw, hl.size?_eq] at hm
      exact .inl ⟨m, hm⟩
  · intro e he hlength
    rw [hdesc he] at hlength
    exact word_allocated hs' hd hn hv hend hlength
  · intro e he hkind
    rw [hdesc he] at hkind ⊢
    cases hn with
    | bytes kind small => rcases kind with h | h <;> rw [hkind] at h <;> cases h
    | slots kind small => rw [hkind] at kind; cases kind
    | fixed plain concrete rank none size => exact rank hkind
  · intro e k he hk
    rw [hdesc he] at hk
    exact byte_allocated hs'.arena hv hk
  · intro a f ha
    have hbefore := hadded.isArray_of hs' hd (fun k hk => byte_allocated hs'.arena hv hk) ha
    obtain ⟨rank, s, -, -, hts, -⟩ := hbefore.type
    obtain ⟨m, hm⟩ := live_of_typeOf hts
    rw [hl.size?_eq] at hm
    exact hs.isArray_of_live (hl.keeps fun _ _ => False) ⟨m, hm⟩ hbefore fun _ => id

theorem allocate_meets (hr : Ready S h) (t : TypeRef) (extra : Nat) :
    Meets (Path S) (allocate t extra) h fun v h' => NewObject h h' v t extra := by
  rw [allocate_eq]
  refine Meets.get_bind (Meets.lift_bind fun d hd => ?_)
  refine learns_bind (payloadSize_meets d extra) fun n h₁ hl hn => ?_
  have hs := (hr.learns hl).sound
  have hd := hl.extends.descriptor hd
  by_cases hroom : h₁.nextStart + n ≤ h₁.limit
  · have href : d.ref = t := hs.registry.types.ref_eq hd
    have hplace : ∃ v : Value, v.offset = h₁.nextStart ∧
        (place d t extra n).runOn h₁ = (.ok v, h₁.allocated v d extra n) :=
      runOn_place href (fun hlength => (hn.word_lt hlength).2) hroom
    obtain ⟨v, hv, hrun⟩ := hplace
    rw [← hv] at hroom
    refine .of_runOn hrun (.step (.allocated hd hn hv hroom)) fun v' hv' => ?_
    cases hv'
    exact newObject_allocated hr.sound hl hd hn hv hroom
  · exact .of_runOn (runOn_place_error (Nat.not_le.1 hroom)) .refl nofun

/-! ## The collector -/

/-- Steps that leave the table of objects as it is. -/
structure Marks (S : Value → Nat → Prop) (h h' : Heap) : Prop where
  trail : Trail S h h'
  objects : h'.objects = h.objects

namespace Marks

theorem of_rewrites (hr : Rewrites (fun _ _ => False) h h') (hsymbols : h'.symbols = h.symbols) : Marks S h h' :=
  ⟨.flags hr hsymbols, hr.objects⟩

instance : Std.Refl (Marks S) := ⟨fun _ => ⟨.refl, rfl⟩⟩

instance : Trans (Marks S) (Marks S) (Marks S) :=
  ⟨fun hm hm' => ⟨hm.trail.trans hm'.trail, hm'.objects.trans hm.objects⟩⟩

/-- Every value has the type that it had, if it had one. -/
theorem typeOf_eq (hm : Marks S h h') (hs : h.Sound) (v : Value) : h'.typeOf v = h.typeOf v := by
  by_cases hv : h.Live v
  · obtain ⟨t, ht⟩ := hs.exists_typeOf hv
    rw [ht]
    exact (hm.trail.keeps hs).typeOf ht
  · have hsize : h.objects.lookup v.offset = none :=
      Option.eq_none_iff_forall_ne_some.2 fun n hn => hv ⟨n, hn⟩
    simp only [typeOf, header, objectSize, hm.objects, hsize]
    rfl

end Marks

theorem setGcBits_meets (hs : h.Sound) (v : Value) (g : GcBits) :
    Meets (Marks S) (setGcBits v g) h fun _ _ => True := by
  by_cases hv : h.Live v
  · have hr : Rewrites (fun _ _ => False) h (h.setFlags v g) := .setFlags hs.arena hv g
    exact .of_runOn (runOn_setFlags hs.arena hv g) (.of_rewrites hr putHeader_symbols) fun _ _ => trivial
  · exact Meets.look_bind fun _ hw => absurd (header_eq_ok.1 hw).1 hv

theorem writeBarrier_meets (hs : h.Sound) (p c : Value) :
    Meets (Marks S) (writeBarrier p c) h fun _ _ => True :=
  ⟨.of_rewrites (.guarded hs.arena p c) (symbols_guarded hs.arena p c), fun _ _ => trivial⟩

theorem drainRoots_meets : Meets (Marks S) drainRoots h fun _ _ => True := by
  have hrun : drainRoots.runOn h = (.ok h.barrier.roots, { h with barrier := h.barrier.cleared }) := rfl
  exact .of_runOn hrun (.of_rewrites (.withBarrier _ h _) rfl) fun _ _ => trivial

theorem takeRemembered_meets (hs : h.Sound) : Meets (Marks S) takeRemembered h fun _ _ => True := by
  unfold takeRemembered
  refine Meets.bind (drainRoots_meets (S := S)) fun roots h₁ hm _ => ?_
  have hforget : Meets (Marks S) (roots.forM forget) h₁ fun _ _ => True := by
    refine Meets.forM (I := Heap.Sound) roots (hm.trail.sound hs) (fun _ _ hs hm => hm.trail.sound hs) ?_
    exact fun v _ _ hs => Meets.look_bind fun bits _ => setGcBits_meets hs v _
  exact Meets.bind hforget fun _ _ _ _ => Meets.pure trivial

end TypedHeap.Heap
