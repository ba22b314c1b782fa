import TypedHeap.Proofs.Object.Paths

/-!
# Modules get other parents

A module that gets another parent takes along what lies inside it. All that changes in the paths of these modules is
what stands in front of the module's name; the other modules keep their paths.

* `ModuleObject.Moved`: a module got another parent, and nothing else changed for modules.

Main results: `write_parent_ends`, `write_parent_accepts`, `Moved.lineage_iff`, `Moved.lineage_below`, `new_tells`.
-/

namespace TypedHeap

open TypedHeap.Action (Ends Yields runOn_bind_ok runOn_look runOn_pure)
open Heap Relation

variable {h h' : Heap} {m p q x y : Value} {n : Symbol} {ns above above' : List Symbol}

/-- A path to a point does not need what leads away from it. -/
theorem reflTransGen_to_mono {α : Type} {r r' : α → α → Prop} {a b : α} (hsub : ∀ c d, c ≠ b → r c d → r' c d)
    (hreach : ReflTransGen r a b) : ReflTransGen r' a b := by
  induction hreach using ReflTransGen.head_induction_on with
  | refl => exact .refl
  | @head c d hcd _ ih =>
    by_cases hb : c = b
    · exact hb ▸ .refl
    · exact .head (hsub c d hb hcd) ih

namespace ModuleObject

/-! ## Changing a parent -/

theorem module_mutable (hs : h.Sound) : h.registry.isMutable Builtin.moduleType = .ok true := by
  have hd : h.registry.table.descriptor Builtin.moduleType = .ok _ := hs.builtin rfl
  rw [Registry.isMutable, hd]
  rfl

/-- A parent is stored once it has been checked. -/
theorem runOn_write_parent (hs : h.Sound) (hm : h.typeOf m = .ok Builtin.moduleType) :
    (Record.write m parentField p).runOn h =
      (do checkParent m parentField p; Record.store m parentLayout p : HeapM Unit).runOn h := by
  obtain ⟨l, hl⟩ := hs.exists_layout hm (hs.builtin rfl) rfl
  have hfield : l.field parentField = .ok parentLayout := by
    rw [Layout.field, hs.module_fields hl]
    rfl
  have hlayout := Record.runOn_fieldLayout hs hm hl parentField
  rw [hfield] at hlayout
  have hcheck : Record.checkMutable h Builtin.moduleType parentLayout = .ok ⟨⟩ :=
    Record.checkMutable_eq_ok (module_mutable hs)
  unfold Record.write
  rw [runOn_bind_ok (by rw [runOn_look, hm]), runOn_bind_ok hlayout, runOn_bind_ok (by rw [runOn_look, hcheck]),
    if_pos rfl]

/-- An object is stored as the parent of a module. -/
theorem store_parent_sets (hs : h.Sound) (hm : h.typeOf m = .ok Builtin.moduleType) (hp : h.Live p) :
    Yields (Record.store m parentLayout p) h fun _ h' => Record.FieldSet m parentLayout (.ref (some p)) h h' := by
  obtain ⟨l, hl⟩ := hs.exists_layout hm (hs.builtin rfl) rfl
  have hmem : parentLayout ∈ l.fields := by
    rw [hs.module_fields hl]
    exact List.mem_cons_of_mem _ List.mem_cons_self
  exact Record.store_ref_sets hs hm hl hmem ⟨rfl, rfl⟩ (offers_any hs hp).2.2

/-- A module gets a parent that does not lie inside it, or nothing happens. -/
theorem write_parent_ends (hs : h.Sound) (hm : h.typeOf m = .ok Builtin.moduleType) (hp : h.Live p) :
    Ends (Record.write m parentField p) h
      (fun _ h' => (p = m ∨ ¬ReflTransGen h.Inside p m) ∧ Record.FieldSet m parentLayout (.ref (some p)) h h')
      (· = h) := by
  refine Ends.congr (runOn_write_parent hs hm) (Ends.bind (P := fun _ h₁ => h₁ = h ∧
    (p = m ∨ ¬ReflTransGen h.Inside p m)) ?_ ?_)
  · refine (Ends.of_meets (checkParent_asks hs m p)).mono (fun _ h₁ hasked => ?_) fun _ => Eq.symm
    exact ⟨hasked.1.symm, or_iff_not_imp_left.2 hasked.2⟩
  · rintro _ _ ⟨rfl, hfar⟩
    obtain ⟨_, h₁, hrun, hset⟩ := store_parent_sets hs hm hp
    exact .of_ok hrun ⟨hfar, hset⟩

/-- A module with a lineage is accepted unless it lies inside the module that it should be the parent of. -/
theorem write_parent_accepts (hs : h.Sound) (ha : h.Acyclic) (hm : h.typeOf m = .ok Builtin.moduleType)
    (hl : Lineage h p ns) (hfar : p = m ∨ ¬ReflTransGen h.Inside p m) :
    ((Record.write m parentField p).runOn h).1 = .ok ⟨⟩ := by
  obtain ⟨_, h', hrun, -⟩ := store_parent_sets hs hm (live_of_typeOf hl.type)
  rw [runOn_write_parent hs hm, runOn_bind_ok (runOn_checkParent hs ha hl hfar), hrun]

/-! ## What a change of a parent leaves -/

/-- The module `m` got the parent `p`. Modules have the names that they had, and the others have the parents that
they had. -/
structure Moved (m p : Value) (h h' : Heap) : Prop where
  sound : h'.Sound
  name : ∀ {y n}, ((name y).runOn h').1 = .ok n ↔ ((name y).runOn h).1 = .ok n
  others : ∀ {y q}, y ≠ m → (h'.Parent y q ↔ h.Parent y q)
  own : h'.Parent m p

/-- Another parent is no other name. -/
theorem name_of_set (hset : Record.FieldSet m parentLayout (.ref (some p)) h h') (hs : h.Sound)
    (hname : ((name y).runOn h).1 = .ok n) : ((name y).runOn h').1 = .ok n := by
  refine name_keeps hname hs hset.sound hset.rewrites.keeps (fun j _ hhi hin => ?_) hset.symbols
  obtain ⟨-, hlo, -⟩ := hin
  exact absurd hhi (Nat.not_lt_of_le (Nat.le_trans (by decide) hlo))

theorem parent_of_set (hset : Record.FieldSet m parentLayout (.ref (some p)) h h')
    (hm : h.typeOf m = .ok Builtin.moduleType) : h'.Parent m p :=
  (parent_iff hset.sound).2 ⟨hset.rewrites.typeOf_iff.2 hm, hset.field⟩

theorem moved_of_set (ht : h.Tidy) (hm : h.typeOf m = .ok Builtin.moduleType)
    (hset : Record.FieldSet m parentLayout (.ref (some p)) h h') : Moved m p h h' := by
  have hs := ht.sound
  refine ⟨hset.sound, ⟨fun hname => ?_, name_of_set hset hs⟩, fun {y q} hne => ?_, parent_of_set hset hm⟩
  · obtain ⟨n, hn⟩ := exists_name ht (hset.rewrites.typeOf_iff.1 (typeOf_of_name hname))
    rwa [hn, ← name_of_set hset hs hn]
  · by_cases hy : h.Live y
    · exact hset.rewrites.keeps.parent_iff hs hset.sound hy fun j hin => hne hin.1
    · have hy' : ¬h'.Live y := fun hlive => hy (hset.rewrites.live_iff.1 hlive)
      exact ⟨fun hp => absurd (live_of_typeOf hp.1) hy', fun hp => absurd (live_of_typeOf hp.1) hy⟩

namespace Moved

variable (hmoved : Moved m p h h')
include hmoved

theorem tells_iff (hs : h.Sound) (hne : y ≠ m) : Tells h' y n q ↔ Tells h y n q := by
  have hparent : ((parent y).runOn h').1 = .ok q ↔ ((parent y).runOn h).1 = .ok q := by
    rw [(runOn_parent hs y).2, (runOn_parent hmoved.sound y).2, hmoved.others hne]
  exact ⟨fun ht => ⟨hmoved.name.1 ht.name, hparent.1 ht.parent⟩,
    fun ht => ⟨hmoved.name.2 ht.name, hparent.2 ht.parent⟩⟩

/-- The same modules lie inside the module as before. -/
theorem reaches_iff : ReflTransGen h'.Inside x m ↔ ReflTransGen h.Inside x m :=
  ⟨reflTransGen_to_mono fun _ _ hne hin => ⟨(hmoved.others hne).1 hin.1, hin.2⟩,
    reflTransGen_to_mono fun _ _ hne hin => ⟨(hmoved.others hne).2 hin.1, hin.2⟩⟩

/-- What does not lie inside the module has the lineage that it had. -/
theorem lineage_iff (hs : h.Sound) (hfar : ¬ReflTransGen h.Inside x m) : Lineage h' x ns ↔ Lineage h x ns := by
  constructor
  · intro hl
    refine hl.mono hmoved.sound fun y n q hreach => (hmoved.tells_iff hs ?_).1
    exact fun heq => hfar (hmoved.reaches_iff.1 (heq ▸ hreach))
  · intro hl
    refine hl.mono hs fun y n q hreach => (hmoved.tells_iff hs ?_).2
    exact fun heq => hfar (heq ▸ hreach)

/-- What lies inside the module has a lineage that goes through it, before and after. By induction on the steps that
lead up to the module. -/
theorem lineage_below (ht : h.Tidy) (hreach : ReflTransGen h.Inside x m) (hl : Lineage h m (above ++ [n]))
    (hl' : Lineage h' m (above' ++ [n])) :
    ∃ below, Lineage h x (above ++ n :: below) ∧ Lineage h' x (above' ++ n :: below) := by
  induction hreach using ReflTransGen.head_induction_on with
  | refl => exact ⟨[], hl, hl'⟩
  | @head x y hin _ ih =>
    by_cases hx : x = m
    · subst hx
      exact ⟨[], hl, hl'⟩
    · obtain ⟨below, hy, hy'⟩ := ih
      obtain ⟨k, hk⟩ := exists_tells ht hin.1
      have hup := Lineage.inside hy hk hin.2
      have hup' := Lineage.inside hy' ((hmoved.tells_iff ht.sound hx).2 hk) hin.2
      rw [List.append_assoc, List.cons_append] at hup hup'
      exact ⟨below ++ [k], hup, hup'⟩

/-- The module stands behind its parent, or in front as a root. -/
theorem lineage_own (hs : h.Sound) (hname : ((ModuleObject.name m).runOn h).1 = .ok n)
    (hfar : p = m ∨ ¬ReflTransGen h.Inside p m) (hp : Lineage h p ns) :
    Lineage h' m ((if p = m then [] else ns) ++ [n]) := by
  have htells : Tells h' m n p := ⟨hmoved.name.2 hname, ((runOn_parent hmoved.sound m).2 p).2 hmoved.own⟩
  split
  · rename_i hroot
    subst hroot
    exact .root htells
  · rename_i hother
    exact .inside ((hmoved.lineage_iff hs (hfar.resolve_left hother)).2 hp) htells hother

end Moved

/-! ## New modules -/

/-- A new module has the name and the parent that it was made with; a root is its own parent. -/
theorem new_tells (hs : h.Sound) (hkeys : h.symbols.Bounded) (n : Symbol) (outer : Option Value) :
    Ends (ModuleObject.new n outer) h (fun m h' => Tells h' m n (outer.getD m)) fun _ => True := by
  have hmake (houter : ∀ p, outer = some p → h.Live p) : Ends (do
      let m ← Record.newUninit Builtin.moduleType
      Record.writeScalar m nameField .symbol n
      Record.write m parentField (outer.getD m)
      return m : HeapM Value) h (fun m h' => Tells h' m n (outer.getD m)) fun _ => True := by
    have hready : Ready (fun _ _ => True) h := ⟨hs, fun _ _ => trivial⟩
    refine Ends.bind (Ends.of_meets (Record.newUninit_meets hready Builtin.moduleType)).answers ?_
    rintro m h₁ ⟨hpath, hnew⟩
    have hs₁ := hpath.sound hs
    have hkeys₁ := (hpath.trail.symbols hs).bounded hkeys
    obtain ⟨l, hl⟩ := hs₁.exists_layout hnew.type (hs₁.builtin rfl) rfl
    have hfield : l.fields[nameField]? = some nameLayout := by
      rw [hs₁.module_fields hl]
      rfl
    have hwrite := Record.writeScalar_sets (k := .symbol) (x := n) hs₁ hkeys₁ hnew.type (module_mutable hs₁) hl hfield
      ⟨rfl, rfl, rfl⟩
    refine Ends.bind hwrite.answers fun _ h₂ hset => ?_
    have hm₂ := hset.rewrites.typeOf_iff.2 hnew.type
    have hp₂ : h₂.Live (outer.getD m) := by
      refine hset.rewrites.live_iff.2 ?_
      cases outer with
      | none => exact live_of_typeOf hnew.type
      | some p => exact (hpath.keeps hs).live (houter p rfl)
    refine Ends.bind (write_parent_ends hset.sound hm₂ hp₂).answers ?_
    rintro _ h₃ ⟨-, hset'⟩
    refine .of_ok (runOn_pure m h₃) ⟨?_, ((runOn_parent hset'.sound m).2 _).2 (parent_of_set hset' hm₂)⟩
    exact name_of_set hset' hset.sound ((name_eq_ok hset.sound).2 ⟨hm₂, hset.field⟩)
  unfold ModuleObject.new
  cases outer with
  | none => exact hmake nofun
  | some p =>
    refine Ends.look_bind trivial fun _ hexpect => hmake fun _ heq => ?_
    cases heq
    exact live_of_typeOf (expectType_eq_ok.1 hexpect)

end ModuleObject
end TypedHeap
