import TypedHeap.Proofs.Types.Growth
import TypedHeap.Proofs.Types.Sorting

/-!
# Instances and unions

The first application of a family to some parameters registers an instance, and every other one finds it.
A union is such an instance too, once its members are in normal form: nested unions are opened, and what
is left is put in order. It is known by its *atoms*, the types that are left.

* `TypeTable.Stands`, `TypeTable.Applied`: a type is the instance of a family.
* `TypeTable.Atom`: the types that a list comes to.
* `TypeTable.Joins`: a type comes to what a list comes to, or is above everything because one in the list is.

Main results: `obtain_meets`, `union_meets`.
-/

namespace TypedHeap

open TypedHeap.Action (Meets)

namespace TypeTable

variable {tt tt' : TypeTable} {s t u a : TypeRef} {d : Descriptor} {f : Family} {ps : Params}
  {name : Symbol} {ts us flat : List TypeRef} {ms : List Member}

/-! ## Instances -/

/-- `t` stands for the family `f` applied to `ps`. -/
def Stands (tt : TypeTable) (f : Family) (ps : Params) (t : TypeRef) : Prop :=
  ∃ d, tt.descriptor t = .ok d ∧ d.family = f ∧ d.params = ps

theorem Stands.extends (h : tt.Stands f ps t) (hext : tt.Extends tt') : tt'.Stands f ps t := by
  obtain ⟨d, hd, hf, hps⟩ := h
  exact ⟨d, hext.descriptor hd, hf, hps⟩

theorem Sound.stands_of_instance? (hs : tt.Sound) (hf : tt.family? name = some f)
    (h : tt.instance? name ps = some t) : tt.Stands f ps t := by
  obtain ⟨d, hd, hname, hps⟩ := hs.instance_eq h
  have hfamily := hs.family_eq hd
  rw [hname, hf] at hfamily
  exact ⟨d, hd, (Option.some.inj hfamily).symm, hps⟩

/-- `t` stands for the family `f` applied to `ps`, and is what an application finds from now on. -/
structure Applied (tt : TypeTable) (f : Family) (ps : Params) (t : TypeRef) : Prop where
  stands : tt.Stands f ps t
  found : tt.instance? f.name ps = some t

theorem Applied.extends (h : tt.Applied f ps t) (hext : tt.Extends tt') : tt'.Applied f ps t :=
  ⟨h.stands.extends hext, hext.instances h.found⟩

/-- What was applied before is found without a change. -/
theorem Applied.runOn_apply (h : tt.Applied f ps t) : (apply f.name ps).runOn tt = (.ok t, tt) := by
  unfold apply
  rw [Action.runOn_bind_ok (Action.runOn_get tt), h.found]
  rfl

/-- No instance stands for a name that no family has. -/
theorem Sound.instance?_eq_none (hs : tt.Sound) (hfree : tt.family? name = none) :
    tt.instance? name ps = none := by
  cases h : tt.instance? name ps with
  | none => rfl
  | some t =>
    obtain ⟨d, hd, hname, -⟩ := hs.instance_eq h
    have hfamily := hs.family_eq hd
    rw [hname, hfree] at hfamily
    cases hfamily

theorem obtain_meets (hs : tt.Sound) (hf : tt.family? f.name = some f) (hfits : tt.Accepts f ps) :
    Meets Path (obtain f ps) tt fun t tt' => tt'.Applied f ps t := by
  unfold obtain
  refine Meets.get_bind ?_
  cases hi : tt.instance? f.name ps with
  | some t => exact Meets.pure ⟨hs.stands_of_instance? hf hi, hi⟩
  | none =>
    refine Meets.look_bind fun t ht => ?_
    refine Meets.change_bind (.single (.applied hf ht hi hfits)) (Meets.pure ⟨?_, ?_⟩)
    · exact ⟨_, (descriptor_addInstance ht).2 (.inr ⟨rfl, rfl⟩), rfl, rfl⟩
    · rw [instance?_addInstance, if_pos ⟨rfl, rfl⟩]

theorem runOn_obtain_found (h : tt.instance? f.name ps = some t) : (obtain f ps).runOn tt = (.ok t, tt) := by
  unfold obtain
  rw [Action.runOn_bind_ok (Action.runOn_get tt), h]
  rfl

theorem runOn_obtain_new (hnew : tt.instance? f.name ps = none) (hnext : tt.nextRef = .ok t) :
    (obtain f ps).runOn tt = (.ok t, tt.addInstance t f ps) := by
  unfold obtain
  rw [Action.runOn_bind_ok (Action.runOn_get tt), hnew]
  show (Action.look TypeTable.nextRef >>= _).runOn tt = _
  rw [Action.runOn_bind_ok (by rw [Action.runOn_look, hnext])]
  rfl

/-! ## Members with their texts -/

/-- Members with their texts stand for the given types, each with the text that shows it. -/
theorem withTexts_eq_ok :
    tt.withTexts ts = .ok ms ↔ List.Forall₂ (fun t m => m.ref = t ∧ tt.render t = .ok m.text) ts ms := by
  have hmember {t : TypeRef} {m : Member} :
      (do return ⟨← tt.render t, t⟩ : Except Error Member) = .ok m ↔ m.ref = t ∧ tt.render t = .ok m.text := by
    simp only [bind_eq_ok, pure_eq_ok]
    constructor
    · rintro ⟨text, htext, rfl⟩
      exact ⟨rfl, htext⟩
    · rintro ⟨rfl, htext⟩
      exact ⟨m.text, htext, rfl⟩
  rw [withTexts, mapM_eq_ok]
  simp only [hmember]

theorem refs_of_withTexts (h : tt.withTexts ts = .ok ms) :
    ms.map Member.ref = ts := by
  induction withTexts_eq_ok.1 h with
  | nil => rfl
  | cons hm _ ih => rw [List.map_cons, hm.1, ih (withTexts_eq_ok.2 (by assumption))]

theorem render_of_withTexts (h : tt.withTexts ts = .ok ms) :
    ∀ m ∈ ms, tt.render m.ref = .ok m.text := by
  induction withTexts_eq_ok.1 h with
  | nil => exact nofun
  | @cons t m ts ms hm hrest ih =>
    rw [List.forall_mem_cons, hm.1]
    exact ⟨hm.2, ih (withTexts_eq_ok.2 hrest)⟩

theorem agree_of_withTexts (h : tt.withTexts ts = .ok ms) :
    Member.Agree ms := by
  intro m hm n hn href
  have htext := render_of_withTexts h m hm
  rw [href, render_of_withTexts h n hn] at htext
  obtain ⟨x, s⟩ := m
  obtain ⟨y, t⟩ := n
  cases href
  cases htext
  rfl

/-! ## Atoms -/

/-- `a` is among the types that a list comes to once its unions are opened. -/
def Atom (tt : TypeTable) (ts : List TypeRef) (a : TypeRef) : Prop :=
  ∃ t ∈ ts, ∃ d, tt.descriptor t = .ok d ∧ if d.kind = .union then a ∈ d.memberTypes else a = t

/-- The atoms of a list are those of the types in it. -/
theorem atom_iff : tt.Atom ts a ↔ ∃ t ∈ ts, tt.Atom [t] a := by
  simp only [Atom, List.mem_singleton, exists_eq_left]

theorem atom_append : tt.Atom (ts ++ us) a ↔ tt.Atom ts a ∨ tt.Atom us a := by
  simp only [Atom, List.mem_append, or_and_right, exists_or]

theorem atom_cons : tt.Atom (t :: ts) a ↔ tt.Atom [t] a ∨ tt.Atom ts a := by
  rw [← List.singleton_append]
  exact atom_append

/-- A type that is no union is its own only atom. -/
theorem atom_single (hd : tt.descriptor t = .ok d) (hkind : d.kind ≠ .union) : tt.Atom [t] a ↔ a = t := by
  simp only [Atom, List.mem_singleton, exists_eq_left]
  constructor
  · rintro ⟨e, he, ha⟩
    cases hd.symm.trans he
    rwa [if_neg hkind] at ha
  · exact fun ha => ⟨d, hd, by rwa [if_neg hkind]⟩

/-- Types that are no unions are left as they are. -/
theorem atom_of_atomic (h : ∀ t ∈ ts, ∃ d, tt.descriptor t = .ok d ∧ d.kind ≠ .union) : tt.Atom ts a ↔ a ∈ ts := by
  rw [atom_iff]
  constructor
  · rintro ⟨t, ht, ha⟩
    obtain ⟨d, hd, hkind⟩ := h t ht
    rwa [(atom_single hd hkind).1 ha]
  · intro ha
    obtain ⟨d, hd, hkind⟩ := h a ha
    exact ⟨a, ha, (atom_single hd hkind).2 rfl⟩

/-- The atoms of a union are its members. -/
theorem atom_union (hd : tt.descriptor t = .ok d) (hkind : d.kind = .union) :
    tt.Atom [t] a ↔ a ∈ d.memberTypes := by
  simp only [Atom, List.mem_singleton, exists_eq_left]
  constructor
  · rintro ⟨e, he, ha⟩
    cases hd.symm.trans he
    rwa [if_pos hkind] at ha
  · exact fun ha => ⟨d, hd, by rwa [if_pos hkind]⟩

/-- A list keeps the atoms that it has. -/
theorem Extends.atom (h : tt.Extends tt') (hts : ∀ t ∈ ts, tt.contains t = true) :
    tt'.Atom ts a ↔ tt.Atom ts a := by
  constructor
  · rintro ⟨t, ht, e, he, ha⟩
    obtain ⟨d, hd⟩ := contains_iff.1 (hts t ht)
    cases (h.descriptor hd).symm.trans he
    exact ⟨t, ht, e, hd, ha⟩
  · rintro ⟨t, ht, e, he, ha⟩
    exact ⟨t, ht, e, h.descriptor he, ha⟩

theorem mem_atoms (h : tt.atoms ts = .ok flat) : a ∈ flat ↔ tt.Atom ts a := by
  induction ts generalizing flat with
  | nil =>
    cases h
    exact ⟨nofun, fun ⟨_, ht, _⟩ => nomatch ht⟩
  | cons t ts ih =>
    obtain ⟨d, hd, h⟩ := bind_eq_ok.1 h
    obtain ⟨rest, hrest, h⟩ := bind_eq_ok.1 h
    cases h
    rw [List.mem_append, ih hrest, atom_cons]
    split
    · rename_i hkind
      rw [atom_union hd hkind]
    · rename_i hkind
      rw [atom_single hd hkind, List.mem_singleton]

theorem contains_of_atoms (h : tt.atoms ts = .ok flat) : ∀ t ∈ ts, tt.contains t = true := by
  induction ts generalizing flat with
  | nil => exact nofun
  | cons t ts ih =>
    obtain ⟨d, hd, h⟩ := bind_eq_ok.1 h
    obtain ⟨rest, hrest, -⟩ := bind_eq_ok.1 h
    exact List.forall_mem_cons.2 ⟨contains_iff.2 ⟨d, hd⟩, ih hrest⟩

/-- What unions are opened to are registered types that are no unions. -/
theorem Sound.atom (hs : tt.Sound) (h : tt.Atom ts a) :
    ∃ d, tt.descriptor a = .ok d ∧ d.kind ≠ .union := by
  obtain ⟨t, -, d, hd, ha⟩ := h
  split at ha
  · rename_i hkind
    obtain ⟨members, hparams, hnormal⟩ := hs.normal hd hkind
    rw [Descriptor.memberTypes, hparams, Params.types_ofTypes] at ha
    exact hnormal.atomic a ha
  · rename_i hkind
    cases ha
    exact ⟨d, hd, hkind⟩

/-- The first type is abstract. -/
theorem Sound.descriptor_any (hs : tt.Sound) :
    ∃ d, tt.descriptor Builtin.any = .ok d ∧ d.kind = .abstract :=
  ⟨_, hs.builtin.descriptor rfl, rfl⟩

/-- The type above everything is an atom of those lists that it stands in. -/
theorem Sound.atom_any (hs : tt.Sound) : tt.Atom ts Builtin.any ↔ Builtin.any ∈ ts := by
  constructor
  · rintro ⟨t, ht, d, hd, ha⟩
    split at ha
    · rename_i hkind
      obtain ⟨members, hparams, hnormal⟩ := hs.normal hd hkind
      rw [Descriptor.memberTypes, hparams, Params.types_ofTypes] at ha
      exact absurd ha hnormal.proper
    · rwa [ha]
  · intro hany
    obtain ⟨d, hd, hkind⟩ := hs.descriptor_any
    exact ⟨_, hany, d, hd, by rw [if_neg (by rw [hkind]; nofun)]⟩

/-! ## Unions -/

/-- The members of a union are put in normal form. -/
theorem normal_of_sorted (hms : tt.withTexts flat = .ok ms)
    (hatomic : ∀ a ∈ flat, ∃ d, tt.descriptor a = .ok d ∧ d.kind ≠ .union) (hproper : Builtin.any ∉ flat)
    (hseveral : (ms.foldr insertMember []).length ≠ 1) :
    tt.Normal ((ms.foldr insertMember []).map Member.ref) := by
  have hagree := agree_of_withTexts hms
  have hrender : ∀ m ∈ ms.foldr insertMember [], tt.render m.ref = .ok m.text := fun m hm =>
    render_of_withTexts hms m ((mem_sorted hagree).1 hm)
  have hmem : ∀ a ∈ (ms.foldr insertMember []).map Member.ref, a ∈ flat := fun a ha => by
    obtain ⟨m, hm, rfl⟩ := List.mem_map.1 ha
    rw [← refs_of_withTexts hms]
    exact List.mem_map_of_mem ((mem_sorted hagree).1 hm)
  refine ⟨?_, fun a ha => hatomic a (hmem a ha), fun ha => hproper (hmem _ ha), by rwa [List.length_map]⟩
  refine List.pairwise_map.2 ((sorted_members hagree).imp_of_mem fun {m n} hm hn hbefore => ?_)
  exact ⟨m.text, n.text, hrender m hm, hrender n hn, hbefore⟩

/-- A type is the union of a list: it is above everything because one in the list is, or it comes to the
same atoms. -/
structure Joins (tt : TypeTable) (ts : List TypeRef) (u : TypeRef) : Prop where
  members : ∀ t ∈ ts, tt.contains t = true
  registered : tt.contains u = true
  top : Builtin.any ∈ ts → u = Builtin.any
  atoms : Builtin.any ∉ ts → ∀ a, tt.Atom [u] a ↔ tt.Atom ts a

theorem Joins.extends (h : tt.Joins ts u) (hext : tt.Extends tt') : tt'.Joins ts u where
  members t ht := hext.contains (h.members t ht)
  registered := hext.contains h.registered
  top := h.top
  atoms hany a := by
    rw [hext.atom h.members, hext.atom fun t ht => by rw [List.mem_singleton.1 ht]; exact h.registered]
    exact h.atoms hany a

/-- Members in normal form have the union that they are put in. -/
theorem joins_of_stands {members : List TypeRef} (hu : tt.Stands Builtin.unionFamily (Params.ofTypes members) u)
    (hmembers : ∀ a, a ∈ members ↔ tt.Atom ts a) (hany : Builtin.any ∉ ts)
    (hts : ∀ t ∈ ts, tt.contains t = true) : tt.Joins ts u := by
  obtain ⟨d, hd, hfamily, hparams⟩ := hu
  have hkind : d.kind = .union := congrArg Family.kind hfamily
  refine ⟨hts, contains_iff.2 ⟨d, hd⟩, fun h => absurd h hany, fun _ a => ?_⟩
  rw [atom_union hd hkind, Descriptor.memberTypes, hparams, Params.types_ofTypes, hmembers]

theorem Sound.family?_union (hs : tt.Sound) : tt.family? "Union" = some Builtin.unionFamily :=
  hs.builtin.family (by decide)

/-- The union of a list is one type that comes to the same atoms. -/
theorem union_meets (hs : tt.Sound) (ts : List TypeRef) :
    Meets Path (union ts) tt fun u tt' => tt'.Joins ts u := by
  unfold union
  refine Meets.look_bind fun flat hflat => ?_
  have hts := contains_of_atoms hflat
  refine Meets.ite (fun htop => Meets.pure ?_) fun hproper => ?_
  · obtain ⟨d, hd, -⟩ := hs.descriptor_any
    have hany : Builtin.any ∈ ts := by
      rw [← hs.atom_any, ← mem_atoms hflat]
      simpa using htop
    exact ⟨hts, contains_iff.2 ⟨d, hd⟩, fun _ => rfl, fun h => absurd hany h⟩
  have hproper : Builtin.any ∉ flat := by simpa using hproper
  have hany : Builtin.any ∉ ts := by rwa [← hs.atom_any, ← mem_atoms hflat]
  have hatomic : ∀ a ∈ flat, ∃ d, tt.descriptor a = .ok d ∧ d.kind ≠ .union := fun a ha =>
    hs.atom ((mem_atoms hflat).1 ha)
  refine Meets.look_bind fun ms hms => ?_
  have hmem (a : TypeRef) : a ∈ (ms.foldr insertMember []).map Member.ref ↔ tt.Atom ts a := by
    rw [← mem_atoms hflat, ← refs_of_withTexts hms, List.mem_map, List.mem_map]
    simp only [mem_sorted (agree_of_withTexts hms)]
  split
  · rename_i only honly
    rw [honly] at hmem
    have hatom : tt.Atom ts only.ref := (hmem _).1 List.mem_cons_self
    obtain ⟨d, hd, hkind⟩ := hs.atom hatom
    refine Meets.pure ⟨hts, contains_iff.2 ⟨d, hd⟩, fun h => absurd h hany, fun _ a => ?_⟩
    rw [atom_single hd hkind, ← hmem, List.map_singleton, List.mem_singleton]
  · rename_i hseveral
    refine Meets.get_bind ?_
    rw [hs.family?_union]
    have hnormal := normal_of_sorted hms hatomic hproper fun hlength => by
      obtain ⟨m, hm⟩ := List.length_eq_one_iff.1 hlength
      exact hseveral m hm
    have hfits : tt.Accepts Builtin.unionFamily (Params.ofTypes ((ms.foldr insertMember []).map Member.ref)) := by
      refine ⟨fun h => absurd rfl h, fun t ht => ?_, fun _ => ⟨_, rfl, hnormal⟩⟩
      rw [Params.types_ofTypes] at ht
      exact (hnormal.atomic t ht).imp fun _ hd => hd.1
    refine (obtain_meets hs hs.family?_union hfits).mono fun u tt' hpath hu => ?_
    have hext := Path.extends hpath
    refine joins_of_stands hu.stands (fun a => ?_) hany fun t ht => hext.contains (hts t ht)
    rw [hext.atom hts, hmem]

end TypeTable

end TypedHeap
