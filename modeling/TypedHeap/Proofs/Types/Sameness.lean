import TypedHeap.Proofs.Layout.Reference
import TypedHeap.Proofs.Types.Join

/-!
# The same type in two tables

Which number a type has depends on what was registered before it. What the type is does not: two types of two
tables are the same type if they agree in name, home, kind, mutability and the names of their fields, and are made
of types that are the same. In each table at most one type is the same as a given one, and the same type is shown
by the same text, though members of unions that have the same text may stand in another order.

* `TypeParam.Alike`, `Descriptor.Alike`: parameters and instances that agree up to the types in them.
* `TypeTable.Same`: the same type in two tables.
* `TypeTable.shown`: the text of a parameter.

Main results: `same_of_extends`, `Same.left_unique`, `Same.right_unique`, `Same.exists_render`.
-/

namespace TypedHeap

open Layouts

/-! ## Agreement up to types -/

/-- Parameters of one kind, with the same value or with types that are related. -/
inductive TypeParam.Alike (R : TypeRef → TypeRef → Prop) : TypeParam → TypeParam → Prop
  | type {s t : TypeRef} (related : R s t) : Alike R (.type s) (.type t)
  | int (n : Int64) : Alike R (.int n) (.int n)
  | symbol (s : Symbol) : Alike R (.symbol s) (.symbol s)
  | bool (b : Bool) : Alike R (.bool b) (.bool b)

/-- Instances that agree in everything but the numbers of types, where types with different numbers are related.
The members of unions are compared as sets. -/
structure Descriptor.Alike (R : TypeRef → TypeRef → Prop) (d e : Descriptor) : Prop where
  name : d.name = e.name
  home : d.family.home = e.family.home
  /-- Bits have the same size and alignment. -/
  kind : d.kind = e.kind
  isMutable : d.isMutable = e.isMutable
  params : d.kind ≠ .union → List.Forall₂ (TypeParam.Alike R) d.params e.params
  members : d.kind = .union →
    (∀ s ∈ d.memberTypes, ∃ t ∈ e.memberTypes, R s t) ∧ ∀ t ∈ e.memberTypes, ∃ s ∈ d.memberTypes, R s t
  fields : List.Forall₂
    (fun f g => f.1 = g.1 ∧ ∀ s t, d.resolve f.2 = .ok s → e.resolve g.2 = .ok t → R s t)
    d.family.fields e.family.fields

section Alike

variable {R Q : TypeRef → TypeRef → Prop} {p q : TypeParam} {d e : Descriptor}

theorem TypeParam.Alike.mono (h : p.Alike R q) (hR : ∀ s t, R s t → Q s t) : p.Alike Q q := by
  cases h with
  | type related => exact .type (hR _ _ related)
  | int n => exact .int n
  | symbol s => exact .symbol s
  | bool b => exact .bool b

theorem TypeParam.Alike.symm (h : p.Alike R q) : q.Alike (flip R) p := by
  cases h with
  | type related => exact .type related
  | int n => exact .int n
  | symbol s => exact .symbol s
  | bool b => exact .bool b

/-- If related types are known by the one on the right, so are parameters. -/
theorem TypeParam.Alike.eq_of_right {p' : TypeParam} (h : p.Alike R q) (h' : p'.Alike Q q)
    (hunique : ∀ a b c, R a c → Q b c → b = a) : p' = p := by
  cases h with
  | type related =>
    cases h' with
    | type related' => rw [hunique _ _ _ related related']
  | _ =>
    cases h'
    rfl

theorem Descriptor.Alike.mono (h : d.Alike R e) (hR : ∀ s t, R s t → Q s t) : d.Alike Q e := by
  refine { h with params := fun hkind => ?_, members := fun hkind => ?_, fields := ?_ }
  · exact (h.params hkind).imp fun _ _ hp => hp.mono hR
  · obtain ⟨hleft, hright⟩ := h.members hkind
    constructor
    · intro s hs
      obtain ⟨t, ht, hst⟩ := hleft s hs
      exact ⟨t, ht, hR s t hst⟩
    · intro t ht
      obtain ⟨s, hs, hst⟩ := hright t ht
      exact ⟨s, hs, hR s t hst⟩
  · exact h.fields.imp fun _ _ hf => ⟨hf.1, fun s t hs ht => hR s t (hf.2 s t hs ht)⟩

theorem Descriptor.Alike.symm (h : d.Alike R e) : e.Alike (flip R) d := by
  refine ⟨h.name.symm, h.home.symm, h.kind.symm, h.isMutable.symm, fun hkind => ?_, fun hkind => ?_, ?_⟩
  · exact (h.params (h.kind ▸ hkind)).flip.imp fun _ _ hp => hp.symm
  · exact (h.members (h.kind.trans hkind)).symm
  · exact h.fields.flip.imp fun _ _ hf => ⟨hf.1.symm, fun t s ht hs => hf.2 s t hs ht⟩

/-- The hash of a family depends on its name and its home. -/
theorem Descriptor.Alike.hash_eq (h : d.Alike R e) : d.family.hash = e.family.hash := by
  have hname : d.family.name = e.family.name := h.name
  rw [Family.hash, Family.hash, h.home, hname]

end Alike

namespace TypeTable

variable {tt tt' : TypeTable} {s t u v a : TypeRef} {d e : Descriptor} {ts us : List TypeRef}

/-- A type of one table is the same as a type of another: their instances agree, with types that are the same where
the numbers differ. -/
inductive Same (tt tt' : TypeTable) : TypeRef → TypeRef → Prop
  | intro {t u : TypeRef} {d e : Descriptor} {R : TypeRef → TypeRef → Prop} (left : tt.descriptor t = .ok d)
      (right : tt'.descriptor u = .ok e) (alike : d.Alike R e) (below : ∀ s v, R s v → Same tt tt' s v) :
      Same tt tt' t u

theorem same_iff : tt.Same tt' t u ↔
    ∃ d e, tt.descriptor t = .ok d ∧ tt'.descriptor u = .ok e ∧ d.Alike (tt.Same tt') e := by
  constructor
  · intro h
    cases h with
    | intro left right alike below => exact ⟨_, _, left, right, alike.mono below⟩
  · rintro ⟨d, e, left, right, alike⟩
    exact .intro left right alike fun _ _ h => h

theorem Same.symm (h : tt.Same tt' t u) : tt'.Same tt u t := by
  induction h with
  | intro left right alike _ ih => exact .intro right left alike.symm fun s v h => ih v s h

/-- Instances of a family without fields are the same type if their parameters are the same. -/
theorem same_of_params {f : Family} {ps qs : Params} (hd : tt.descriptor t = .ok ⟨t, f, ps⟩)
    (he : tt'.descriptor u = .ok ⟨u, f, qs⟩) (hkind : f.kind ≠ .union) (hfields : f.fields = [])
    (hparams : List.Forall₂ (TypeParam.Alike (tt.Same tt')) ps qs) : tt.Same tt' t u := by
  refine same_iff.2 ⟨_, _, hd, he, rfl, rfl, rfl, rfl, fun _ => hparams, fun h => absurd h hkind, ?_⟩
  rw [hfields]
  exact .nil

/-- A type is the same in all tables that grew out of one in which it was registered. -/
theorem same_of_extends {tt₀ : TypeTable} (ho : tt₀.Ordered) (h : tt₀.Extends tt) (h' : tt₀.Extends tt')
    (ht : tt₀.contains t = true) : tt.Same tt' t t := by
  induction hn : t.index using Nat.strongRecOn generalizing t with
  | ind n ih =>
    obtain ⟨d, hd⟩ := contains_iff.1 ht
    refine .intro (R := fun s v => s = v ∧ d.Mentions s) (h.descriptor hd) (h'.descriptor hd)
      ⟨rfl, rfl, rfl, rfl, fun _ => ?_, fun _ => ?_, ?_⟩ ?_
    · refine List.forall₂_same.2 fun p hp => ?_
      cases p with
      | type s => exact .type ⟨rfl, Descriptor.mentions_of_mem hp⟩
      | int n => exact .int n
      | symbol s => exact .symbol s
      | bool b => exact .bool b
    · exact ⟨fun s hs => ⟨s, hs, rfl, .inl hs⟩, fun s hs => ⟨s, hs, rfl, .inl hs⟩⟩
    · refine List.forall₂_same.2 fun f hf => ⟨rfl, fun s v hs hv => ?_⟩
      cases hs.symm.trans hv
      exact ⟨rfl, mentions_of_resolve hf hs⟩
    · rintro s _ ⟨rfl, hs⟩
      have hlt := ho.earlier hd hs
      exact ih s.index (hn ▸ hlt) (contains_of_lt hd hlt) rfl

/-! ## Members in order -/

instance : Std.Irrefl tt.Precedes := by
  refine ⟨fun t h => ?_⟩
  obtain ⟨x, y, hx, hy, hbefore⟩ := h
  cases hx.symm.trans hy
  exact Member.before_irrefl _ hbefore

theorem Precedes.trans (h : tt.Precedes s t) (h' : tt.Precedes t u) : tt.Precedes s u := by
  obtain ⟨x, y, hx, hy, hbefore⟩ := h
  obtain ⟨y', z, hy', hz, hbefore'⟩ := h'
  cases hy.symm.trans hy'
  exact ⟨x, z, hx, hz, Member.before_trans hbefore hbefore'⟩

instance : Std.Antisymm tt.Precedes := ⟨fun _ _ h h' => absurd (h.trans h') (Std.Irrefl.irrefl _)⟩

/-- Members in normal form are known by which types are among them. -/
theorem Normal.eq_of_mem_iff (hts : tt.Normal ts) (hus : tt.Normal us) (h : ∀ a, a ∈ ts ↔ a ∈ us) : ts = us :=
  hts.sorted.eq_of_mem_iff hus.sorted h

theorem Normal.nodup (h : tt.Normal ts) : ts.Nodup := by
  refine h.sorted.imp fun {s t} hst heq => ?_
  subst heq
  exact Std.Irrefl.irrefl s hst

/-! ## One of each -/

section Unique

variable {α β : Type} {P Q : α → β → Prop}

/-- Lists whose elements are known by those of a third list are equal. -/
theorem eq_of_forall₂ {as bs : List α} {cs : List β} (has : List.Forall₂ P as cs) (hbs : List.Forall₂ Q bs cs)
    (hunique : ∀ a b c, P a c → Q b c → b = a) : bs = as := by
  induction has generalizing bs with
  | nil => exact List.forall₂_nil_right_iff.1 hbs
  | cons ha _ ih =>
    cases hbs with
    | cons hb hbs => rw [hunique _ _ _ ha hb, ih hbs]

/-- Sets whose elements are known by those of a third set are equal. -/
theorem mem_iff_of_related {as bs : List α} {cs : List β} (has : ∀ a ∈ as, ∃ c ∈ cs, P a c)
    (has' : ∀ c ∈ cs, ∃ a ∈ as, P a c) (hbs : ∀ b ∈ bs, ∃ c ∈ cs, Q b c) (hbs' : ∀ c ∈ cs, ∃ b ∈ bs, Q b c)
    (hunique : ∀ a b c, P a c → Q b c → b = a) (a : α) : a ∈ bs ↔ a ∈ as := by
  constructor
  · intro ha
    obtain ⟨c, hc, hac⟩ := hbs a ha
    obtain ⟨b, hb, hbc⟩ := has' c hc
    rwa [hunique b a c hbc hac]
  · intro ha
    obtain ⟨c, hc, hac⟩ := has a ha
    obtain ⟨b, hb, hbc⟩ := hbs' c hc
    rwa [← hunique a b c hac hbc]

end Unique

/-- A table has one type at most that is the same as a given one. -/
theorem Same.left_unique (hs : tt.Sound) (h : tt.Same tt' t u) (h' : tt.Same tt' s u) : s = t := by
  induction h generalizing s with
  | @intro t u d e R left right alike _ ih =>
    obtain ⟨d', e', left', right', alike'⟩ := same_iff.1 h'
    cases right.symm.trans right'
    have hname : d'.name = d.name := alike'.name.trans alike.name.symm
    have hkind : d'.kind = d.kind := alike'.kind.trans alike.kind.symm
    have hunique (a b c : TypeRef) (hac : R a c) (hbc : tt.Same tt' b c) : b = a := ih a c hac hbc
    have hparams : d'.params = d.params := by
      by_cases hunion : d.kind = .union
      · obtain ⟨ts, hts, hnormal⟩ := hs.normal left hunion
        obtain ⟨ts', hts', hnormal'⟩ := hs.normal left' (hkind.trans hunion)
        obtain ⟨hleft, hright⟩ := alike.members hunion
        obtain ⟨hleft', hright'⟩ := alike'.members (hkind.trans hunion)
        simp only [Descriptor.memberTypes, hts, hts', Params.types_ofTypes] at hleft hright hleft' hright'
        rw [hts, hts', hnormal'.eq_of_mem_iff hnormal (mem_iff_of_related hleft hright hleft' hright' hunique)]
      · exact eq_of_forall₂ (alike.params hunion) (alike'.params (hkind ▸ hunion))
          fun p q r hp hq => hp.eq_of_right hq hunique
    have hfound := hs.found left'
    rw [hname, hparams, hs.found left] at hfound
    exact (Option.some.inj hfound).symm

/-- The other table has one type at most that is the same as a given one. -/
theorem Same.right_unique (hs : tt'.Sound) (h : tt.Same tt' t u) (h' : tt.Same tt' t v) : v = u :=
  h.symm.left_unique hs h'.symm

/-! ## Texts -/

/-- The text of a parameter. -/
def shown (tt : TypeTable) : TypeParam → String
  | .type s => tt.renderOrRef s
  | .int n => toString n.toInt
  | .symbol s => s.debug
  | .bool b => toString b

theorem renderOrRef_eq {text : String} (h : tt.render t = .ok text) : tt.renderOrRef t = text := by
  rw [renderOrRef, h]

/-- With a bound that is at least the number of the type, the bound does not matter. -/
theorem renderWithin_eq (ho : tt.Ordered) {depth : Nat} (hle : t.index ≤ depth) :
    tt.renderWithin depth t = tt.render t := by
  induction depth using Nat.strongRecOn generalizing t with
  | ind depth ih =>
    obtain ⟨n, hn⟩ := t.exists_index_eq
    obtain ⟨k, rfl⟩ : ∃ k, depth = k + 1 := ⟨depth - 1, by omega⟩
    rw [render, hn, renderWithin, renderWithin]
    cases hd : tt.descriptor t with
    | error e => rfl
    | ok d =>
      show ite _ _ _ = ite _ _ _
      congr 1
      refine congrArg (· >>= _) (mapM_congr fun p hp => ?_)
      cases p with
      | type s =>
        have hlt := ho.earlier hd (Descriptor.mentions_of_mem hp)
        show tt.renderWithin k s = tt.renderWithin n s
        rw [ih k (by omega) (by omega), ih n (by omega) (by omega)]
      | _ => rfl

/-- A registered type is shown by its name and the texts of its parameters. -/
theorem render_eq_ok (ho : tt.Ordered) (hd : tt.descriptor t = .ok d) :
    tt.render t = .ok (if d.params.isEmpty && d.kind != .union then d.name.text
      else d.name.text ++ "\x7b" ++ ", ".intercalate (d.params.map tt.shown) ++ "\x7d") := by
  obtain ⟨n, hn⟩ := t.exists_index_eq
  rw [render, hn, renderWithin]
  refine bind_eq_ok.2 ⟨d, hd, ?_⟩
  split
  · rfl
  · refine bind_eq_ok.2 ⟨d.params.map tt.shown, mapM_eq_ok.2 ?_, rfl⟩
    refine List.forall₂_map_right_iff.2 (List.forall₂_same.2 fun p hp => ?_)
    cases p with
    | type s =>
      have hlt := ho.earlier hd (Descriptor.mentions_of_mem hp)
      obtain ⟨text, htext⟩ := exists_renderWithin ho (contains_of_lt hd hlt) (Nat.le_refl _)
      show tt.renderWithin n s = .ok (tt.renderOrRef s)
      rw [renderWithin_eq ho (by omega), renderOrRef_eq htext]
      exact htext
    | _ => rfl

/-- The texts of members in normal form are in order. -/
theorem Normal.texts_sorted (h : tt.Normal ts) : (ts.map tt.renderOrRef).Pairwise (· ≤ ·) := by
  refine List.pairwise_map.2 (h.sorted.imp fun {s t} hst => ?_)
  obtain ⟨x, y, hx, hy, hbefore⟩ := hst
  rw [renderOrRef_eq hx, renderOrRef_eq hy]
  rcases Prod.Lex.toLex_lt_toLex.1 (Member.before_iff.1 hbefore) with hlt | ⟨heq, -⟩
  · exact le_of_lt hlt
  · exact le_of_eq heq

/-- Members in normal form that are the same as those of another union have the same texts, in the same order. -/
theorem Same.texts_eq (hs : tt.Sound) (hs' : tt'.Sound) (hts : tt.Normal ts) (hus : tt'.Normal us)
    (hleft : ∀ s ∈ ts, ∃ v ∈ us, tt.Same tt' s v ∧ tt.renderOrRef s = tt'.renderOrRef v)
    (hright : ∀ v ∈ us, ∃ s ∈ ts, tt.Same tt' s v) :
    ts.map tt.renderOrRef = us.map tt'.renderOrRef := by
  choose! image hmem hsame htext using hleft
  have hperm : (ts.map image).Perm us := by
    refine (List.perm_ext_iff_of_nodup ?_ hus.nodup).2 fun v => ⟨fun hv => ?_, fun hv => ?_⟩
    · refine (List.nodup_map_iff_inj_on hts.nodup).2 fun a ha b hb heq => ?_
      exact (hsame b hb).left_unique hs (heq ▸ hsame a ha)
    · obtain ⟨s, hs, rfl⟩ := List.mem_map.1 hv
      exact hmem s hs
    · obtain ⟨s, hst, hsv⟩ := hright v hv
      exact List.mem_map.2 ⟨s, hst, hsv.right_unique hs' (hsame s hst)⟩
  have htexts : ts.map tt.renderOrRef = (ts.map image).map tt'.renderOrRef := by
    rw [List.map_map]
    exact List.map_congr_left htext
  have hsorted := hts.texts_sorted
  rw [htexts] at hsorted ⊢
  exact (hperm.map _).eq_of_pairwise' hsorted hus.texts_sorted

theorem map_shown_eq {R : TypeRef → TypeRef → Prop} {ps qs : Params} (h : List.Forall₂ (TypeParam.Alike R) ps qs)
    (hR : ∀ s v, R s v → tt.renderOrRef s = tt'.renderOrRef v) : ps.map tt.shown = qs.map tt'.shown := by
  induction h with
  | nil => rfl
  | cons hp _ ih =>
    rw [List.map_cons, List.map_cons, ih]
    cases hp with
    | type related => rw [shown, shown, hR _ _ related]
    | _ => rfl

/-- The same type has the same text in both tables. -/
theorem Same.renderOrRef_eq (hs : tt.Sound) (hs' : tt'.Sound) (ho : tt.Ordered) (ho' : tt'.Ordered)
    (h : tt.Same tt' t u) : tt.renderOrRef t = tt'.renderOrRef u := by
  induction h with
  | @intro t u d e R left right alike below ih =>
    rw [TypeTable.renderOrRef_eq (render_eq_ok ho left), TypeTable.renderOrRef_eq (render_eq_ok ho' right)]
    have hshown : d.params.map tt.shown = e.params.map tt'.shown := by
      by_cases hunion : d.kind = .union
      · obtain ⟨ts, hts, hnormal⟩ := hs.normal left hunion
        obtain ⟨us, hus, hnormal'⟩ := hs'.normal right (alike.kind ▸ hunion)
        obtain ⟨hleft, hright⟩ := alike.members hunion
        simp only [Descriptor.memberTypes, hts, hus, Params.types_ofTypes] at hleft hright
        rw [hts, hus, Params.ofTypes, Params.ofTypes, List.map_map, List.map_map]
        refine Same.texts_eq hs hs' hnormal hnormal' (fun s hs => ?_) fun v hv => ?_
        · obtain ⟨v, hv, hsv⟩ := hleft s hs
          exact ⟨v, hv, below s v hsv, ih s v hsv⟩
        · obtain ⟨s, hs, hsv⟩ := hright v hv
          exact ⟨s, hs, below s v hsv⟩
      · exact map_shown_eq (alike.params hunion) ih
    have hempty : d.params.isEmpty = e.params.isEmpty := by simpa using congrArg List.isEmpty hshown
    rw [hshown, hempty, alike.kind, alike.name]

/-- A type that is registered has a text, and the same type has it in both tables. -/
theorem Same.exists_render (hs : tt.Sound) (hs' : tt'.Sound) (ho : tt.Ordered) (ho' : tt'.Ordered)
    (h : tt.Same tt' t u) : ∃ text, tt.render t = .ok text ∧ tt'.render u = .ok text := by
  obtain ⟨d, e, hd, he, -⟩ := same_iff.1 h
  have heq := h.renderOrRef_eq hs hs' ho ho'
  rw [TypeTable.renderOrRef_eq (render_eq_ok ho hd), TypeTable.renderOrRef_eq (render_eq_ok ho' he)] at heq
  exact ⟨_, render_eq_ok ho hd, heq ▸ render_eq_ok ho' he⟩

/-! ## Names -/

/-- A type without parameters is found under its name in both tables. -/
theorem Same.lookup (hs : tt.Sound) (hs' : tt'.Sound) (h : tt.Same tt' t u) {name : Symbol}
    (hname : tt.lookup name = some t) : tt'.lookup name = some u := by
  obtain ⟨d, e, hd, he, halike⟩ := same_iff.1 h
  obtain ⟨d', hd', rfl, hparams⟩ := hs.instance_eq hname
  cases hd.symm.trans hd'
  have hparams' : e.params = [] := by
    by_cases hunion : d.kind = .union
    · obtain ⟨us, hus, -⟩ := hs'.normal he (halike.kind ▸ hunion)
      have hright := (halike.members hunion).2
      simp only [Descriptor.memberTypes, hparams, hus, Params.types_ofTypes] at hright
      cases us with
      | nil => exact hus
      | cons v us =>
        obtain ⟨s, hs, -⟩ := hright v List.mem_cons_self
        cases hs
    · have hforall := halike.params hunion
      rw [hparams] at hforall
      exact List.forall₂_nil_left_iff.1 hforall
  have hfound := hs'.found he
  rwa [hparams', ← halike.name] at hfound

end TypeTable

end TypedHeap
