import Mathlib.Data.List.Nodup
import TypedHeap.Proofs.Types.Redeclaration

/-!
# Room for instances

An instance takes a number, of which there are finitely many. An application succeeds without one if its instance is
there already. So a list of applications can all be made if there are as many numbers left as there are instances
missing, and once this is not so, it never is again.

* `TypeTable.missing`, `TypeTable.HasRoom`: instances that are not there yet, and numbers for them.
* `TypeTable.Adds`: a table has one more instance, unless it had that before, and is otherwise the same.

Main results: `Path.hasRoom`, `Adds.hasRoom_iff`, `apply_adds`, `define_adds`.
-/

namespace TypedHeap.TypeTable

open TypedHeap.Action (Yields runOn_bind_ok runOn_get runOn_look)

variable {tt tt' : TypeTable} {f : Family} {ps : Params} {t : TypeRef} {d : Declaration} {name : Symbol}
  {k : Symbol × Params} {ks : List (Symbol × Params)}

/-! ## What is missing -/

/-- How many of some applications have no instance. -/
def missing (tt : TypeTable) (ks : List (Symbol × Params)) : Nat :=
  ks.countP fun k => (tt.instance? k.1 k.2).isNone

/-- There is a number left for each of some applications that has no instance. -/
def HasRoom (tt : TypeTable) (ks : List (Symbol × Params)) : Prop :=
  tt.types.size + tt.missing ks < 0x100000000

@[simp] theorem missing_nil : tt.missing [] = 0 := rfl

theorem missing_cons_none (h : tt.instance? k.1 k.2 = none) : tt.missing (k :: ks) = tt.missing ks + 1 := by
  simp [missing, h]

theorem missing_cons_some (h : tt.instance? k.1 k.2 = some t) : tt.missing (k :: ks) = tt.missing ks := by
  simp [missing, h]

/-- Applications that have the same instances miss as many. -/
theorem missing_congr (h : ∀ k ∈ ks, tt'.instance? k.1 k.2 = tt.instance? k.1 k.2) :
    tt'.missing ks = tt.missing ks :=
  List.countP_congr fun k hk => by rw [h k hk]

/-- Where all instances are there, none is missing. -/
theorem missing_eq_zero (h : ∀ k ∈ ks, ∃ t, tt.instance? k.1 k.2 = some t) : tt.missing ks = 0 := by
  refine List.countP_eq_zero.2 fun k hk => ?_
  obtain ⟨t, ht⟩ := h k hk
  simp [ht]

/-- A step uses up a number for each instance that it makes, at least. -/
theorem Step.missing_le (h : tt.Step tt') (hks : ks.Nodup) :
    tt.types.size + tt.missing ks ≤ tt'.types.size + tt'.missing ks := by
  cases h with
  | family => exact Nat.le_refl _
  | @applied f ps t declared next new fits =>
    have hsize : (tt.addInstance t f ps).types.size = tt.types.size + 1 := Array.size_push _
    have hsame {k : Symbol × Params} (hne : k ≠ (f.name, ps)) :
        (tt.addInstance t f ps).instance? k.1 k.2 = tt.instance? k.1 k.2 := by
      rw [instance?_addInstance, if_neg]
      rintro ⟨hname, hps⟩
      exact hne (Prod.ext hname.symm hps.symm)
    have hfound : (tt.addInstance t f ps).instance? f.name ps = some t :=
      (instance?_addInstance _ _).trans (if_pos ⟨rfl, rfl⟩)
    suffices hmissing : tt.missing ks ≤ (tt.addInstance t f ps).missing ks + 1 by omega
    -- At most one of the applications is the one that was made.
    induction ks with
    | nil => exact Nat.zero_le _
    | cons k ks ih =>
      obtain ⟨hk, hks⟩ := List.nodup_cons.1 hks
      by_cases hkey : k = (f.name, ps)
      · subst hkey
        have hrest : (tt.addInstance t f ps).missing ks = tt.missing ks :=
          missing_congr fun k' hk' => hsame fun heq => hk (heq ▸ hk')
        rw [missing_cons_none new, missing_cons_some hfound, hrest]
      · have hrest := ih hks
        cases hinstance : tt.instance? k.1 k.2 with
        | none =>
          rw [missing_cons_none hinstance, missing_cons_none ((hsame hkey).trans hinstance)]
          omega
        | some s =>
          rw [missing_cons_some hinstance, missing_cons_some ((hsame hkey).trans hinstance)]
          exact hrest

theorem Path.missing_le (h : Path tt tt') (hks : ks.Nodup) :
    tt.types.size + tt.missing ks ≤ tt'.types.size + tt'.missing ks :=
  h.preserves (P := fun tt' => tt.types.size + tt.missing ks ≤ tt'.types.size + tt'.missing ks)
    (fun step hle => hle.trans (step.missing_le hks)) (Nat.le_refl _)

/-- Room that there is later was there before. -/
theorem Path.hasRoom (h : Path tt tt') (hks : ks.Nodup) (hroom : tt'.HasRoom ks) : tt.HasRoom ks :=
  Nat.lt_of_le_of_lt (h.missing_le hks) hroom

/-- Where nothing is missing, no room is needed. -/
theorem Sound.hasRoom (hs : tt.Sound) (h : ∀ k ∈ ks, ∃ t, tt.instance? k.1 k.2 = some t) : tt.HasRoom ks := by
  have hbounded := hs.bounded
  rw [HasRoom, missing_eq_zero h]
  exact hbounded

/-! ## One more instance -/

/-- A table has an instance of an application, for which it took a number if there was none before. Everything with
another name is as it was. -/
structure Adds (tt tt' : TypeTable) (k : Symbol × Params) : Prop where
  size : tt'.types.size = tt.types.size + tt.missing [k]
  others : ∀ name ps, (name, ps) ≠ k → tt'.instance? name ps = tt.instance? name ps
  families : ∀ name, name ≠ k.1 → tt'.family? name = tt.family? name

/-- What is found is not added. -/
theorem adds_refl (h : tt.instance? k.1 k.2 = some t) : tt.Adds tt k := by
  refine ⟨?_, fun _ _ _ => rfl, fun _ _ => rfl⟩
  rw [missing_cons_some h]
  rfl

theorem adds_addInstance (hnone : tt.instance? f.name ps = none) (t : TypeRef) :
    tt.Adds (tt.addInstance t f ps) (f.name, ps) := by
  refine ⟨?_, fun name qs hne => ?_, fun _ _ => rfl⟩
  · rw [missing_cons_none hnone]
    exact Array.size_push _
  · rw [instance?_addInstance, if_neg]
    rintro ⟨rfl, rfl⟩
    exact hne rfl

/-- The rest of a list has the room that the whole list had before its first application was made. -/
theorem Adds.hasRoom_iff (h : tt.Adds tt' k) (hk : k ∉ ks) : tt'.HasRoom ks ↔ tt.HasRoom (k :: ks) := by
  have hrest : tt'.missing ks = tt.missing ks :=
    missing_congr fun k' hk' => h.others k'.1 k'.2 fun heq => hk (heq ▸ hk')
  have hsize := h.size
  unfold HasRoom
  cases hinstance : tt.instance? k.1 k.2 with
  | none =>
    rw [missing_cons_none hinstance] at hsize ⊢
    rw [missing_nil] at hsize
    rw [hsize, hrest]
    omega
  | some t =>
    rw [missing_cons_some hinstance] at hsize ⊢
    rw [missing_nil] at hsize
    rw [hsize, hrest]
    omega

theorem HasRoom.of_cons (h : tt.HasRoom (k :: ks)) : tt.HasRoom [k] := by
  unfold HasRoom at h ⊢
  cases hinstance : tt.instance? k.1 k.2 with
  | none =>
    rw [missing_cons_none hinstance] at h ⊢
    rw [missing_nil]
    omega
  | some t =>
    rw [missing_cons_some hinstance] at h ⊢
    rw [missing_nil]
    omega

/-- Room for a missing instance is a number. -/
theorem HasRoom.exists_nextRef (h : tt.HasRoom [k]) (hnone : tt.instance? k.1 k.2 = none) :
    ∃ t, tt.nextRef = .ok t := by
  rw [HasRoom, missing_cons_none hnone] at h
  have hlt : tt.types.size + 1 < 0x100000000 := h
  unfold nextRef
  rw [TypeRef.ofIndex?, dif_pos ⟨Nat.succ_pos _, hlt⟩]
  exact ⟨_, rfl⟩

/-! ## Operations -/

/-- With room for it, a family is applied to parameters that it accepts. -/
theorem apply_adds (hf : tt.family? f.name = some f) (hkind : f.kind ≠ .union)
    (hchecked : tt.checkParams f ps = .ok ()) (hroom : tt.HasRoom [(f.name, ps)]) :
    Yields (apply f.name ps) tt fun _ tt' => tt.Adds tt' (f.name, ps) := by
  unfold apply
  refine Yields.bind_ok (runOn_get tt) ?_
  cases hi : tt.instance? f.name ps with
  | some t => exact Yields.pure (adds_refl hi)
  | none =>
    obtain ⟨t, hnext⟩ := hroom.exists_nextRef hi
    refine Yields.bind_ok (runOn_get tt) ?_
    rw [hf]
    show Yields (if f.kind = .union then _ else Action.look (·.checkParams f ps) >>= fun _ => obtain f ps) tt _
    rw [if_neg hkind]
    exact Yields.look_bind hchecked (Yields.of_ok (runOn_obtain_new hi hnext) (adds_addInstance hi t))

/-- With room for it, an array type is made. -/
theorem arrayType_adds {elem : TypeRef} {ndims : Nat} (hs : tt.Sound) (helem : tt.contains elem = true)
    (hndims : 0 ≤ (Int64.ofNat ndims).toInt ∧ (Int64.ofNat ndims).toInt ≤ maxRank)
    (hroom : tt.HasRoom [("Array", [.type elem, .int (Int64.ofNat ndims)])]) :
    Yields (arrayType elem ndims) tt fun _ tt' =>
      tt.Adds tt' ("Array", [.type elem, .int (Int64.ofNat ndims)]) := by
  have hf : tt.family? "Array" = some Builtin.arrayFamily := hs.builtin.family (by decide)
  refine apply_adds (f := Builtin.arrayFamily) hf (by decide) ?_ hroom
  obtain ⟨d, hd⟩ := contains_iff.1 helem
  have hregistered : tt.checkRegistered [.type elem, .int (Int64.ofNat ndims)] = .ok () := by
    refine forM_eq_ok.2 fun t ht => ?_
    obtain rfl : t = elem := by simpa [Params.types, TypeParam.type?] using ht
    rw [hd]
    rfl
  have harray : checkArrayParams Builtin.arrayFamily [.type elem, .int (Int64.ofNat ndims)] = .ok () :=
    if_pos hndims
  show (tt.checkRegistered _ >>= fun _ => checkArrayParams _ _ : Except Error Unit) = _
  rw [hregistered]
  exact harray

/-- A new family without parameters gets its instance at once. -/
theorem runOn_declare_new (hvalid : tt.validate d = .ok ()) (hfree : tt.family? d.name = none) (hparams : d.params = [])
    (hnext : tt.nextRef = .ok t) :
    (declare d).runOn tt = (.ok d.family, (tt.addFamily d.family).addInstance t d.family []) := by
  rw [runOn_declare_free hvalid hfree hparams, runOn_bind_ok (by rw [runOn_nextRef_addFamily, hnext])]
  rfl

/-- Declaring a new family adds the one instance that it has. -/
theorem adds_declared (hnone : tt.instance? d.name [] = none) (t : TypeRef) :
    tt.Adds ((tt.addFamily d.family).addInstance t d.family []) (d.name, []) := by
  have hadds : (tt.addFamily d.family).Adds ((tt.addFamily d.family).addInstance t d.family []) (d.name, []) :=
    adds_addInstance hnone t
  refine ⟨hadds.size, hadds.others, fun name hne => ?_⟩
  rw [hadds.families name hne, family?_addFamily]
  exact if_neg hne.symm

/-- With room for its instance, a family without parameters is declared and applied, or found if it was declared with
the same shape. -/
theorem define_adds (hs : tt.Sound) (hparams : d.params = []) (hvalid : tt.validate d = .ok ())
    (hsame : ∀ f, tt.family? d.name = some f → f = d.family) (hroom : tt.HasRoom [(d.name, [])]) :
    Yields (define d) tt fun _ tt' => tt.Adds tt' (d.name, []) := by
  unfold define
  rw [hparams]
  show Yields (declareOrFind d >>= fun _ => apply d.name []) tt _
  cases hf : tt.family? d.name with
  | some f =>
    obtain rfl := hsame f hf
    have hchecked := (accepts_declared hparams hvalid).checked d.kind.typeKind_ne_union
    refine Yields.bind_ok (runOn_declareOrFind_same hf) ?_
    exact apply_adds (f := d.family) hf d.kind.typeKind_ne_union hchecked hroom
  | none =>
    have hnone : tt.instance? d.name [] = none := hs.instance?_eq_none hf
    obtain ⟨t, hnext⟩ := hroom.exists_nextRef hnone
    have hdeclare := runOn_declare_new hvalid hf hparams hnext
    have hfound : ((tt.addFamily d.family).addInstance t d.family []).instance? d.name [] = some t :=
      (instance?_addInstance _ _).trans (if_pos ⟨rfl, rfl⟩)
    have hfind : (declareOrFind d).runOn tt = (.ok d.family, (tt.addFamily d.family).addInstance t d.family []) := by
      unfold declareOrFind
      rw [runOn_bind_ok (runOn_get tt), hf]
      show (tryCatch (declare d) _).runOn tt = _
      rw [Action.runOn_tryCatch, hdeclare]
    have happly : (apply d.name []).runOn ((tt.addFamily d.family).addInstance t d.family []) =
        (.ok t, (tt.addFamily d.family).addInstance t d.family []) := by
      unfold apply
      rw [runOn_bind_ok (runOn_get _), hfound]
      rfl
    exact Yields.bind_ok hfind (Yields.of_ok happly (adds_declared hnone t))

end TypedHeap.TypeTable
