import TypedHeap.Proofs.Types.Hierarchy

/-!
# Unions are joins

Which union a list of types has depends on its atoms only. It is found again without a change, applying the
family of unions gives it as well, and it is the least type above all types in the list.

* `TypeTable.unite`: the union of members that are in order.

Main results: `runOn_union_congr`, `Joins.runOn_union`, `Joins.runOn_union_pair`, `runOn_apply_union`,
`union_yields`, `Joins.upper`, `Joins.least`.
-/

namespace TypedHeap.TypeTable

open TypedHeap.Action (runOn_bind_ok runOn_look runOn_get)

variable {tt : TypeTable} {s t u v a : TypeRef} {d : Descriptor} {ts us flat : List TypeRef} {ms : List Member}

/-! ## Registered types can be shown -/

theorem exists_renderWithin (ho : tt.Ordered) {depth : Nat} (ht : tt.contains t = true)
    (hdepth : t.index ≤ depth) : ∃ text, tt.renderWithin depth t = .ok text := by
  induction depth generalizing t with
  | zero =>
    have := t.pos
    omega
  | succ depth ih =>
    obtain ⟨d, hd⟩ := contains_iff.1 ht
    unfold renderWithin
    refine exists_bind hd ?_
    split
    · exact ⟨_, rfl⟩
    · refine exists_bind (exists_mapM fun p hp => ?_).choose_spec ⟨_, rfl⟩
      cases p with
      | type s =>
        have hlt := ho.earlier hd (Descriptor.mentions_of_mem hp)
        exact ih (contains_of_lt hd hlt) (by omega)
      | _ => exact ⟨_, rfl⟩

/-- A type that is registered is shown as before when others are. -/
theorem Extends.render_eq {tt' : TypeTable} (h : tt.Extends tt') (ho : tt.Ordered) (ht : tt.contains t = true) :
    tt'.render t = tt.render t := by
  obtain ⟨text, htext⟩ := exists_renderWithin ho ht (Nat.le_refl _)
  exact (h.render htext).trans htext.symm

theorem Extends.mismatch_eq {tt' : TypeTable} (h : tt.Extends tt') (ho : tt.Ordered) (hs : tt.contains s = true)
    (ht : tt.contains t = true) : tt'.mismatch s t = tt.mismatch s t := by
  unfold mismatch renderOrRef
  rw [h.render_eq ho hs, h.render_eq ho ht]

/-! ## Atoms -/

theorem exists_atoms (hts : ∀ t ∈ ts, tt.contains t = true) : ∃ flat, tt.atoms ts = .ok flat := by
  induction ts with
  | nil => exact ⟨[], rfl⟩
  | cons t ts ih =>
    rw [List.forall_mem_cons] at hts
    obtain ⟨d, hd⟩ := contains_iff.1 hts.1
    obtain ⟨flat, hflat⟩ := ih hts.2
    exact exists_bind hd (exists_bind hflat ⟨_, rfl⟩)

theorem exists_withTexts (hs : tt.Sound) (ho : tt.Ordered) (hflat : tt.atoms ts = .ok flat) :
    ∃ ms, tt.withTexts flat = .ok ms := by
  refine exists_mapM fun a ha => ?_
  obtain ⟨d, hd, -⟩ := hs.atom ((mem_atoms hflat).1 ha)
  obtain ⟨text, htext⟩ := exists_renderWithin ho (contains_iff.2 ⟨d, hd⟩) (Nat.le_refl _)
  exact exists_bind htext ⟨_, rfl⟩

/-! ## What a union is -/

/-- The union of members that are in order. -/
def unite : List Member → Action TypeTable TypeRef
  | [only] => return only.ref
  | sorted => obtain Builtin.unionFamily (Params.ofTypes (sorted.map Member.ref))

theorem runOn_union (hs : tt.Sound) (hflat : tt.atoms ts = .ok flat)
    (hms : tt.withTexts flat = .ok ms) (hany : Builtin.any ∉ ts) :
    (union ts).runOn tt = (unite (ms.foldr insertMember [])).runOn tt := by
  have hproper : flat.contains Builtin.any = false := by
    simpa [mem_atoms hflat, hs.atom_any] using hany
  unfold union
  rw [runOn_bind_ok (by rw [runOn_look, hflat]), if_neg (by rw [hproper]; nofun),
    runOn_bind_ok (by rw [runOn_look, hms])]
  rcases ms.foldr insertMember [] with _ | ⟨m, _ | ⟨n, rest⟩⟩
  · exact (runOn_bind_ok (runOn_get tt)).trans (by rw [hs.family?_union]; rfl)
  · rfl
  · exact (runOn_bind_ok (runOn_get tt)).trans (by rw [hs.family?_union]; rfl)

theorem runOn_union_any (hs : tt.Sound) (hts : ∀ t ∈ ts, tt.contains t = true) (hany : Builtin.any ∈ ts) :
    (union ts).runOn tt = (.ok Builtin.any, tt) := by
  obtain ⟨flat, hflat⟩ := exists_atoms hts
  have hproper : flat.contains Builtin.any = true := by
    simpa [mem_atoms hflat, hs.atom_any] using hany
  unfold union
  rw [runOn_bind_ok (by rw [runOn_look, hflat]), if_pos hproper]
  rfl

/-- Lists with the same atoms have the same union. -/
theorem runOn_union_congr (hs : tt.Sound) (ho : tt.Ordered) (hts : ∀ t ∈ ts, tt.contains t = true)
    (hus : ∀ t ∈ us, tt.contains t = true) (h : ∀ a, tt.Atom ts a ↔ tt.Atom us a) :
    (union ts).runOn tt = (union us).runOn tt := by
  by_cases hany : Builtin.any ∈ ts
  · have hany' : Builtin.any ∈ us := by rwa [← hs.atom_any, ← h, hs.atom_any]
    rw [runOn_union_any hs hts hany, runOn_union_any hs hus hany']
  · have hany' : Builtin.any ∉ us := by rwa [← hs.atom_any, ← h, hs.atom_any]
    obtain ⟨flat, hflat⟩ := exists_atoms hts
    obtain ⟨flat', hflat'⟩ := exists_atoms hus
    obtain ⟨ms, hms⟩ := exists_withTexts hs ho hflat
    obtain ⟨ms', hms'⟩ := exists_withTexts hs ho hflat'
    have hmem {flat : List TypeRef} {ms : List Member} (hms : tt.withTexts flat = .ok ms) (m : Member) :
        m ∈ ms ↔ m.ref ∈ flat ∧ tt.render m.ref = .ok m.text := by
      rw [← refs_of_withTexts hms]
      refine ⟨fun hm => ⟨List.mem_map_of_mem hm, render_of_withTexts hms m hm⟩, fun ⟨href, htext⟩ => ?_⟩
      obtain ⟨n, hn, hnm⟩ := List.mem_map.1 href
      have hntext := render_of_withTexts hms n hn
      rw [hnm, htext] at hntext
      obtain ⟨x, s⟩ := m
      obtain ⟨y, t⟩ := n
      cases hnm
      cases hntext
      exact hn
    have hsorted : ms.foldr insertMember [] = ms'.foldr insertMember [] := by
      refine sorted_congr (agree_of_withTexts hms) (agree_of_withTexts hms') fun m => ?_
      rw [hmem hms, hmem hms', mem_atoms hflat, mem_atoms hflat', h]
    rw [runOn_union hs hflat hms hany, runOn_union hs hflat' hms' hany', hsorted]

/-! ## Asking again -/

theorem unite_eq (h : ms.length ≠ 1) :
    unite ms = obtain Builtin.unionFamily (Params.ofTypes (ms.map Member.ref)) := by
  match ms, h with
  | [], _ => rfl
  | _ :: _ :: _, _ => rfl

/-- Members in normal form are in order. -/
theorem Normal.sorted_texts (h : tt.Normal ts) (hms : tt.withTexts ts = .ok ms) :
    ms.Pairwise fun m n => m.before n = true := by
  have hsorted := h.sorted
  rw [← refs_of_withTexts hms, List.pairwise_map] at hsorted
  refine hsorted.imp_of_mem fun {m n} hm hn ⟨x, y, hx, hy, hbefore⟩ => ?_
  cases (render_of_withTexts hms m hm).symm.trans hx
  cases (render_of_withTexts hms n hn).symm.trans hy
  exact hbefore

/-- The members of a union that is registered are put together as this union. -/
theorem runOn_unite_members (hs : tt.Sound) (hu : tt.descriptor u = .ok d) (hkind : d.kind = .union)
    (hms : tt.withTexts d.memberTypes = .ok ms) :
    (unite (ms.foldr insertMember [])).runOn tt = (.ok u, tt) := by
  obtain ⟨members, hparams, hnormal⟩ := hs.normal hu hkind
  rw [Descriptor.memberTypes, hparams, Params.types_ofTypes] at hms
  have hrefs := refs_of_withTexts hms
  have hseveral : ms.length ≠ 1 := by
    rw [← List.length_map Member.ref, hrefs]
    exact hnormal.several
  have hfound := hs.found hu
  rw [Descriptor.name, hs.unions (hs.family_eq hu) hkind, hparams] at hfound
  rw [sorted_eq_self (hnormal.sorted_texts hms) (agree_of_withTexts hms), unite_eq hseveral, hrefs]
  exact runOn_obtain_found hfound

/-- A type is the union of itself. -/
theorem runOn_union_self (hs : tt.Sound) (ho : tt.Ordered) (hu : tt.contains u = true) :
    (union [u]).runOn tt = (.ok u, tt) := by
  have hus : ∀ t ∈ [u], tt.contains t = true := fun t ht => by rwa [List.mem_singleton.1 ht]
  obtain ⟨d, hd⟩ := contains_iff.1 hu
  by_cases hany : Builtin.any ∈ [u]
  · rw [runOn_union_any hs hus hany, List.mem_singleton.1 hany]
  have hflat : tt.atoms [u] = .ok (if d.kind = .union then d.memberTypes else [u]) := by
    rw [← List.append_nil (if d.kind = .union then d.memberTypes else [u])]
    exact bind_eq_ok.2 ⟨d, hd, rfl⟩
  obtain ⟨ms, hms⟩ := exists_withTexts hs ho hflat
  rw [runOn_union hs hflat hms hany]
  split at hms
  · rename_i hkind
    exact runOn_unite_members hs hd hkind hms
  · have hrefs := refs_of_withTexts hms
    match ms, hrefs with
    | [m], hrefs =>
      rw [← (List.cons.inj hrefs).1]
      rfl

/-- The union of a list is found again without a change. -/
theorem Joins.runOn_union (h : tt.Joins ts u) (hs : tt.Sound) (ho : tt.Ordered) :
    (union ts).runOn tt = (.ok u, tt) := by
  by_cases hany : Builtin.any ∈ ts
  · rw [runOn_union_any hs h.members hany, h.top hany]
  · have hus : ∀ t ∈ [u], tt.contains t = true := fun t ht => by
      rw [List.mem_singleton.1 ht]
      exact h.registered
    rw [runOn_union_congr hs ho h.members hus fun a => (h.atoms hany a).symm, runOn_union_self hs ho h.registered]

/-- A list with one atom has this one for its union. -/
theorem Joins.eq_of_atom (h : tt.Joins ts u) (hs : tt.Sound) (ho : tt.Ordered) (ha : ∀ b, tt.Atom ts b ↔ b = a) :
    u = a := by
  obtain ⟨d, hd, hkind⟩ := hs.atom ((ha a).2 rfl)
  have hcontains : tt.contains a = true := contains_iff.2 ⟨d, hd⟩
  have hsingle : ∀ t ∈ [a], tt.contains t = true := fun t ht => by rwa [List.mem_singleton.1 ht]
  have hsame := runOn_union_congr hs ho h.members hsingle fun b => by rw [ha, atom_single hd hkind]
  rw [h.runOn_union hs ho, runOn_union_self hs ho hcontains] at hsame
  exact Except.ok.inj (Prod.mk.inj hsame).1

/-- The union of two unions is the union of everything that was put into them. -/
theorem Joins.runOn_union_pair (h : tt.Joins ts u) (h' : tt.Joins us v) (hs : tt.Sound) (ho : tt.Ordered) :
    (union [u, v]).runOn tt = (union (ts ++ us)).runOn tt := by
  have hpair : ∀ t ∈ [u, v], tt.contains t = true := by
    simp only [List.forall_mem_cons]
    exact ⟨h.registered, h'.registered, nofun⟩
  have happend : ∀ t ∈ ts ++ us, tt.contains t = true := fun t ht =>
    (List.mem_append.1 ht).elim (h.members t) (h'.members t)
  by_cases hany : Builtin.any ∈ ts ++ us
  · have hmem : Builtin.any ∈ [u, v] := by
      rcases List.mem_append.1 hany with hmem | hmem
      · rw [h.top hmem]
        exact List.mem_cons_self
      · rw [h'.top hmem]
        exact List.mem_cons_of_mem u List.mem_cons_self
    rw [runOn_union_any hs hpair hmem, runOn_union_any hs happend hany]
  · rw [List.mem_append, not_or] at hany
    refine runOn_union_congr hs ho hpair happend fun a => ?_
    rw [atom_cons, h.atoms hany.1, h'.atoms hany.2, atom_append]

theorem unionMembers_ofTypes (ts : List TypeRef) : unionMembers (Params.ofTypes ts) = .ok ts := by
  rw [unionMembers, mapM_eq_ok, Params.ofTypes, List.forall₂_map_left_iff]
  exact List.forall₂_same.2 fun _ _ => rfl

/-- Applying the family of unions to some types gives their union. -/
theorem runOn_apply_union (hs : tt.Sound) (ho : tt.Ordered) (hts : ∀ t ∈ ts, tt.contains t = true) :
    (apply "Union" (Params.ofTypes ts)).runOn tt = (union ts).runOn tt := by
  rw [apply, runOn_bind_ok (runOn_get tt)]
  cases hi : tt.instance? "Union" (Params.ofTypes ts) with
  | some t =>
    obtain ⟨d, hd, hfamily, hparams⟩ := hs.stands_of_instance? hs.family?_union hi
    have hkind : d.kind = .union := congrArg Family.kind hfamily
    have hmembers : d.memberTypes = ts := by rw [Descriptor.memberTypes, hparams, Params.types_ofTypes]
    have hjoins : tt.Joins ts t := by
      refine joins_of_stands ⟨d, hd, hfamily, hparams⟩ (fun a => ?_) (fun hany => ?_) hts
      · rw [atom_of_atomic fun a ha => hs.atom ((atom_union hd hkind).2 (hmembers ▸ ha))]
      · have hatom := hs.atom_any.1 ((atom_union hd hkind).2 (hmembers ▸ hany))
        exact hs.union_ne_any hd hkind (List.mem_singleton.1 hatom).symm
    rw [hjoins.runOn_union hs ho]
    rfl
  | none =>
    dsimp only
    rw [runOn_bind_ok (runOn_get tt), hs.family?_union]
    show (liftM (unionMembers (Params.ofTypes ts)) >>= union : Action TypeTable TypeRef).runOn tt = _
    rw [unionMembers_ofTypes]
    exact runOn_bind_ok (Action.runOn_lift _ tt)

/-! ## Getting a union -/

/-- There is a union of any types that are registered, as long as another type can be. -/
theorem union_yields (hs : tt.Sound) (ho : tt.Ordered) (hts : ∀ t ∈ ts, tt.contains t = true)
    (hroom : tt.types.size + 1 < 0x100000000) : ∃ u, ((union ts).runOn tt).1 = .ok u := by
  by_cases hany : Builtin.any ∈ ts
  · exact ⟨_, congrArg Prod.fst (runOn_union_any hs hts hany)⟩
  obtain ⟨flat, hflat⟩ := exists_atoms hts
  obtain ⟨ms, hms⟩ := exists_withTexts hs ho hflat
  rw [runOn_union hs hflat hms hany]
  by_cases hseveral : (ms.foldr insertMember []).length = 1
  · obtain ⟨m, hm⟩ := List.length_eq_one_iff.1 hseveral
    exact ⟨m.ref, by rw [hm]; rfl⟩
  · rw [unite_eq hseveral, obtain, runOn_bind_ok (runOn_get tt)]
    cases hi : tt.instance? Builtin.unionFamily.name
        (Params.ofTypes ((ms.foldr insertMember []).map Member.ref)) with
    | some t => exact ⟨t, rfl⟩
    | none =>
      have hnext : tt.nextRef = .ok ⟨tt.types.size + 1, Nat.succ_pos _, hroom⟩ := by
        rw [nextRef, TypeRef.ofIndex?, dif_pos ⟨Nat.succ_pos _, hroom⟩]
      exact ⟨_, congrArg Prod.fst (runOn_bind_ok (by rw [runOn_look, hnext]))⟩

/-! ## Bounds -/

/-- A union is above everything that was put into it. -/
theorem Joins.upper (h : tt.Joins ts u) (hs : tt.Sound) (ho : tt.Ordered) (hb : tt.BelowAbstract)
    (ht : t ∈ ts) : tt.isa t u = .ok true := by
  rw [isa_iff hs ho hb (h.members t ht) h.registered]
  by_cases hany : Builtin.any ∈ ts
  · exact .inl (h.top hany)
  · refine .inr fun x hx => ⟨x, (h.atoms hany x).2 ?_, .inl rfl⟩
    exact atom_iff.2 ⟨t, ht, hx⟩

/-- A union is below everything that is above all that was put into it. -/
theorem Joins.least (h : tt.Joins ts u) (hs : tt.Sound) (ho : tt.Ordered) (hb : tt.BelowAbstract)
    (ht : tt.contains t = true) (hall : ∀ s ∈ ts, tt.isa s t = .ok true) :
    tt.isa u t = .ok true := by
  by_cases hany : Builtin.any ∈ ts
  · rw [h.top hany]
    exact hall _ hany
  · rw [isa_iff hs ho hb h.registered ht]
    by_cases htop : t = Builtin.any
    · exact .inl htop
    · refine .inr fun x hx => ?_
      obtain ⟨s, hmem, hx⟩ := atom_iff.1 ((h.atoms hany x).1 hx)
      exact ((isa_iff hs ho hb (h.members s hmem) ht).1 (hall s hmem)).resolve_left htop x hx

end TypedHeap.TypeTable
