import Mathlib.Data.List.Nodup
import Mathlib.Data.List.Perm.Subperm
import Mathlib.Logic.Relation
import TypedHeap.Object.Nesting
import TypedHeap.Proofs.Failure
import TypedHeap.Proofs.Object.Reading

/-!
# Modules inside modules

A module refers to one value, its parent. A root is its own parent, so only steps from a module to
another value lead upwards.

* `Heap.Parent`, `Heap.Inside`: the parent of a module, and that it is another value.
* `Heap.Acyclic`: nothing is inside itself, over however many steps.

Main results: `runOn_parent`, by which `ModuleObject.parent` finds those parents, `runOn_checkAbove`, by
which the check in front of a store looks at all that the store could close a circle with, and
`acyclic_of_added`: a new edge that the check lets through closes none. Without circles, following
parents takes no more steps than there are objects (`Acyclic.length_le`).
-/

namespace TypedHeap.Heap

open TypedHeap.Action (Meets Fails runOn_bind_ok runOn_bind_error runOn_look runOn_pure runOn_throw)

variable {h h' : Heap} {m p v x target : Value} {t : TypeRef} {l : Layout} {e : FieldLayout} {i k n : Nat}
  {S : Value → Nat → Prop}

/-! ## Parents -/

/-- The module `m` refers to `p`: that is its parent. -/
def Parent (h : Heap) (m p : Value) : Prop :=
  h.typeOf m = .ok Builtin.moduleType ∧ ∃ l e, h.registry.layouts.find? Builtin.moduleType = some l ∧
    e ∈ l.fields ∧ e.isInline = false ∧ h.slot m e.offset = some p

/-- The module `m` lies in `p`, which is not `m` itself. -/
def Inside (h : Heap) (m p : Value) : Prop := h.Parent m p ∧ p ≠ m

/-- No module lies in itself, unless as a root. -/
def Acyclic (h : Heap) : Prop := ∀ m, ¬Relation.TransGen h.Inside m m

theorem Inside.live (hin : h.Inside m p) : h.Live m := live_of_typeOf hin.1.1

/-- Where a module keeps its name. -/
def nameLayout : FieldLayout := ⟨"name", Builtin.symbol, 0, 4, true⟩

/-- Where a module keeps its parent. -/
def parentLayout : FieldLayout := ⟨"parent", Builtin.any, 8, 8, false⟩

/-- A module stores its name inline, and behind it the reference to its parent. -/
theorem Sound.module_fields (hs : h.Sound) (hl : h.registry.layouts.find? Builtin.moduleType = some l) :
    l.fields = [nameLayout, parentLayout] := by
  obtain ⟨d, hd, hdesc⟩ := hs.registry.layouts.describes hl
  cases hd.symm.trans (hs.builtin rfl)
  obtain ⟨fields, hfields, hp⟩ := hdesc
  obtain ⟨slots, hslots, -, rfl, -⟩ := hs.registry.layouts.product hp
  cases hfields
  obtain ⟨name, rest, hname, hrest, rfl⟩ := List.forall₂_cons_left_iff.1 hslots
  obtain ⟨parent, rest, hparent, hnil, rfl⟩ := List.forall₂_cons_left_iff.1 hrest
  cases List.forall₂_nil_left_iff.1 hnil
  have hname : name = ⟨"name", Builtin.symbol, 4, 4, true⟩ := by
    have hbits {k : Layout} (hk : h.registry.layouts.find? Builtin.symbol = some k) : k = Layout.bits 4 4 := by
      obtain ⟨d, hd, hdesc⟩ := hs.registry.layouts.describes hk
      cases hd.symm.trans (hs.builtin rfl)
      exact hdesc
    cases hname with
    | inline _ found =>
      rw [hbits found]
      rfl
    | reference outside =>
      obtain ⟨d, hd, ⟨hno, -⟩ | ⟨-, k, hk, hnobits⟩⟩ := outside
      · cases hd.symm.trans (hs.builtin rfl)
        cases hno
      · rw [hbits hk] at hnobits
        cases hnobits
  have hparent : parent = Slot.reference "parent" Builtin.any := by
    cases hparent with
    | reference _ => rfl
    | inline inline _ =>
      -- Nothing abstract is stored inline.
      obtain ⟨d, hd, ⟨-, hno⟩ | ⟨hyes, -⟩⟩ := inline
      · cases hno
      · cases hd.symm.trans (hs.builtin rfl)
        cases hyes
  rw [hname, hparent]
  rfl

theorem parent_iff (hs : h.Sound) :
    h.Parent m p ↔ h.typeOf m = .ok Builtin.moduleType ∧ h.slot m parentLayout.offset = some p := by
  constructor
  · rintro ⟨ht, l, e, hl, he, hout, hslot⟩
    rw [hs.module_fields hl] at he
    rcases List.mem_pair.1 he with rfl | rfl
    · cases hout
    · exact ⟨ht, hslot⟩
  · rintro ⟨ht, hslot⟩
    obtain ⟨l, hl⟩ := hs.exists_layout ht (hs.builtin rfl) rfl
    exact ⟨ht, l, _, hl, by rw [hs.module_fields hl]; exact List.mem_cons_of_mem _ List.mem_cons_self, rfl, hslot⟩

/-- Whatever a module refers to is an object. -/
theorem Parent.live (hs : h.Sound) (hp : h.Parent m p) : h.Live p := by
  obtain ⟨ht, l, e, hl, he, hout, hslot⟩ := hp
  obtain ⟨s, hts, -⟩ := isa_eq_ok.1 (hs.fields ht hl he hout p hslot)
  exact live_of_typeOf hts

/-- A module that nobody has written to has the parent that it had. -/
theorem Keeps.parent_iff (hk : Keeps S h h') (hs : h.Sound) (hs' : h'.Sound) (hm : h.Live m)
    (hS : ∀ j, ¬S m j) : h'.Parent m p ↔ h.Parent m p := by
  have htype : h'.typeOf m = .ok Builtin.moduleType ↔ h.typeOf m = .ok Builtin.moduleType :=
    ⟨hs.typeOf_of_live hk.toExtends hm, fun ht => hk.typeOf ht⟩
  rw [Heap.parent_iff hs, Heap.parent_iff hs', htype]
  refine and_congr_right fun ht => ?_
  obtain ⟨l, hl⟩ := hs.exists_layout ht (hs.builtin rfl) rfl
  have hmem : parentLayout ∈ l.fields := by
    rw [hs.module_fields hl]
    exact List.mem_cons_of_mem _ List.mem_cons_self
  have hend := hs.registry.layouts.end_le hl hmem
  rw [hk.slot_eq (hs.size_record ht hl hmem) hend fun j _ _ => hS j]

/-- Likewise it lies where it did. -/
theorem Keeps.inside_of (hk : Keeps S h h') (hs : h.Sound) (hs' : h'.Sound) (hm : h.Live m)
    (hS : ∀ j, ¬S m j) (hin : h'.Inside m p) : h.Inside m p :=
  ⟨(hk.parent_iff hs hs' hm hS).1 hin.1, hin.2⟩

/-! ## Questions about modules -/

open TypedHeap.ModuleObject

/-- Asking for the parent changes nothing, and the answer is the value that the module refers to. -/
theorem runOn_parent (hs : h.Sound) (m : Value) :
    ((parent m).runOn h).2 = h ∧ ∀ p, ((parent m).runOn h).1 = .ok p ↔ h.Parent m p := by
  simp only [parent_iff hs]
  unfold parent
  cases hexpect : h.expectType m Builtin.moduleType with
  | error err =>
    rw [runOn_bind_error (by rw [runOn_look, hexpect])]
    refine ⟨rfl, fun p => ⟨nofun, fun hp => ?_⟩⟩
    rw [expectType_eq_ok.2 hp.1] at hexpect
    cases hexpect
  | ok _ =>
    have ht := expectType_eq_ok.1 hexpect
    obtain ⟨l, hl⟩ := hs.exists_layout ht (hs.builtin rfl) rfl
    have hread := Record.runOn_read hs ht hl parentField
    have hfield : l.field parentField = .ok parentLayout := by
      rw [Layout.field, hs.module_fields hl]
      rfl
    rw [hfield] at hread
    have hdatum := Record.datumAt_outside hs ht hl (Record.mem_of_field hfield) rfl
    rw [runOn_bind_ok (by rw [runOn_look, hexpect])]
    cases hslot : h.slot m parentLayout.offset with
    | none =>
      rw [hslot] at hdatum
      rw [runOn_bind_error (hread.trans (congrArg (·, h) hdatum))]
      exact ⟨rfl, fun p => ⟨nofun, nofun⟩⟩
    | some q =>
      rw [hslot] at hdatum
      rw [runOn_bind_ok (hread.trans (congrArg (·, h) hdatum))]
      refine ⟨rfl, fun p => ⟨fun hq => ⟨ht, congrArg some (Except.ok.inj hq)⟩, fun hq => ?_⟩⟩
      exact congrArg Except.ok (Option.some.inj hq.2)

theorem runOn_parent_of (hs : h.Sound) (hp : h.Parent m p) : (parent m).runOn h = (.ok p, h) :=
  Prod.ext (((runOn_parent hs m).2 p).2 hp) (runOn_parent hs m).1

/-- A module has one parent. -/
theorem Parent.unique (hs : h.Sound) (hp : h.Parent m p) (hx : h.Parent m x) : p = x := by
  have heq := runOn_parent_of hs hp
  rw [runOn_parent_of hs hx] at heq
  cases heq
  rfl

/-- Asking for the parent changes nothing. -/
theorem parent_asks (hs : h.Sound) (m : Value) : Meets Eq (parent m) h fun p _ => h.Parent m p :=
  ⟨(runOn_parent hs m).1.symm, fun p => ((runOn_parent hs m).2 p).1⟩

theorem name_asks (hs : h.Sound) (m : Value) : Meets Eq (name m) h fun _ _ => True := by
  unfold name
  refine Meets.look_bind fun _ hexpect => ?_
  have ht := expectType_eq_ok.1 hexpect
  obtain ⟨l, hl⟩ := hs.exists_layout ht (hs.builtin rfl) rfl
  exact Record.readScalar_asks hs ht hl .symbol nameField

/-! ## The check in front of a store -/

/-- What the check lets through lies nowhere inside the module. By induction on the steps: the check stops
at a root, and moves on to the one value that the last one lies in. -/
theorem checkAbove_asks (hs : h.Sound) (m target : Value) (n : Nat) (cur : Value) :
    Meets Eq (checkAbove m target n cur) h fun _ _ => ¬Relation.ReflTransGen h.Inside cur m := by
  induction n generalizing cur with
  | zero => exact Meets.throw _
  | succ n ih =>
    unfold checkAbove
    refine Meets.ite (fun _ => ?_) fun hne => ?_
    · refine Meets.ask_bind (name_asks hs m) fun _ _ => ?_
      exact Meets.ask_bind (name_asks hs target) fun _ _ => Meets.throw_bind _
    · refine Meets.ask_bind (parent_asks hs cur) fun next hnext => ?_
      have hstep {w : Value} (hin : h.Inside cur w) : w = next := hin.1.unique hs hnext
      refine Meets.ite (fun hroot => Meets.pure fun hreach => ?_) fun _ => ?_
      · rcases hreach.cases_head with heq | ⟨w, hw, -⟩
        · exact hne heq
        · exact hw.2 ((hstep hw).trans hroot)
      · refine (ih next).mono fun _ _ _ hnot hreach => ?_
        rcases hreach.cases_head with heq | ⟨w, hw, hrest⟩
        · exact hne heq
        · rw [hstep hw] at hrest
          exact hnot hrest

/-- What a module may be put in lies nowhere inside the module. -/
theorem checkParent_asks (hs : h.Sound) (m x : Value) : Meets Eq (checkParent m parentField x) h fun _ _ =>
    x ≠ m → ¬Relation.ReflTransGen h.Inside x m := by
  unfold checkParent
  refine Meets.ite (fun hne => Meets.look_bind fun t ht => ?_) fun hroot => ?_
  · refine Meets.ite (fun _ => Meets.get_bind ?_) fun hother => Meets.pure fun _ hreach => ?_
    · exact (checkAbove_asks hs m x _ x).mono fun _ _ _ hnot _ => hnot
    · rcases hreach.cases_head with heq | ⟨w, hw, -⟩
      · exact hne.2 heq
      · exact hother (Except.ok.inj (ht.symm.trans hw.1.1))
  · exact Meets.pure fun hne => absurd ⟨rfl, hne⟩ hroot

/-! ## New edges -/

/-- An edge from `v` to `x` closes no circle if `v` cannot be reached from `x`. -/
theorem acyclic_of_added {r r' : Value → Value → Prop} (hadded : ∀ a b, r' a b → r a b ∨ a = v ∧ b = x)
    (hr : ∀ a, ¬Relation.TransGen r a a) (hx : ¬Relation.ReflTransGen r x v) (a : Value) :
    ¬Relation.TransGen r' a a := by
  -- A path with the new edge comes to `v` without it, and leaves `x` without it.
  have hpath {a b : Value} (h : Relation.TransGen r' a b) :
      Relation.TransGen r a b ∨ Relation.ReflTransGen r a v ∧ Relation.ReflTransGen r x b := by
    induction h with
    | single hab =>
      rcases hadded _ _ hab with hab | ⟨rfl, rfl⟩
      · exact .inl (.single hab)
      · exact .inr ⟨.refl, .refl⟩
    | tail _ hbc ih =>
      rcases hadded _ _ hbc with hbc | ⟨rfl, rfl⟩
      · exact ih.imp (·.tail hbc) fun h => ⟨h.1, h.2.tail hbc⟩
      · rcases ih with hav | ⟨-, hxv⟩
        · exact .inr ⟨hav.to_reflTransGen, .refl⟩
        · exact absurd hxv hx
  intro hcycle
  rcases hpath hcycle with hold | ⟨hav, hxa⟩
  · exact hr a hold
  · exact hx (hxa.trans hav)

/-! ## Following parents -/

/-- Different objects are no more than there are. -/
theorem length_le_objects {vs : List Value} (hnodup : vs.Nodup) (hlive : ∀ v ∈ vs, h.Live v) :
    vs.length ≤ h.objects.length := by
  have hsub : vs.map Value.offset ⊆ h.objects.map Prod.fst := by
    intro off hoff
    obtain ⟨v, hv, rfl⟩ := List.mem_map.1 hoff
    obtain ⟨n, hn⟩ := hlive v hv
    exact List.mem_map.2 ⟨_, mem_of_size? hn, rfl⟩
  have hoffsets : (vs.map Value.offset).Nodup := List.Nodup.map (fun _ _ => Value.ext) hnodup
  have hle := (List.subperm_of_subset hoffsets hsub).length_le
  rwa [List.length_map, List.length_map] at hle

/-- A chain of modules, each inside the next one, is at most as long as there are objects. -/
theorem Acyclic.length_le (hacyclic : h.Acyclic) {vs : List Value}
    (hchain : List.IsChain h.Inside (v :: vs)) : vs.length ≤ h.objects.length := by
  have hpairs := (hchain.imp fun _ _ => Relation.TransGen.single).pairwise
  have hnodup : (v :: vs).Nodup := hpairs.imp fun {a b} hab heq => by
    rw [heq] at hab
    exact hacyclic b hab
  have hlive : ∀ w ∈ (v :: vs).dropLast, h.Live w := by
    clear hpairs hnodup
    induction vs generalizing v with
    | nil => nofun
    | cons w vs ih =>
      rw [List.isChain_cons_cons] at hchain
      rw [List.dropLast_cons_cons, List.forall_mem_cons]
      exact ⟨hchain.1.live, ih hchain.2⟩
  have hle := length_le_objects ((List.dropLast_sublist _).nodup hnodup) hlive
  simpa using hle

end TypedHeap.Heap
