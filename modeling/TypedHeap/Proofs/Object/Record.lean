import TypedHeap.Object.Update
import TypedHeap.Proofs.Object.Box

/-!
# Objects with fields, and modules

* `Record.read_meets`, …: reading computes layouts at most.
* `Record.store_meets`, `write_meets`, `writeScalar_meets`: a field is changed under checks, or nothing
  is.
* `Record.new_meets`, `readValue_meets`, `ModuleObject.new_meets`: new objects.
* `ModuleObject.checkParent_meets`, `path_meets`: following parents changes nothing.
-/

namespace TypedHeap

open TypedHeap.Action (Meets)
open Heap

variable {h h' : Heap} {v x m : Value} {f : FieldLayout} {t : TypeRef} {l : Layout} {i : Nat}
  {S : Value → Nat → Prop} {k : ScalarKind}

namespace Record

/-! ## Reading -/

/-- `f` is a field of the object `v`. -/
def IsField (h : Heap) (v : Value) (f : FieldLayout) : Prop :=
  ∃ t l, h.typeOf v = .ok t ∧ h.registry.layouts.find? t = some l ∧ f ∈ l.fields

theorem IsField.extends (hf : IsField h v f) (he : h.Extends h') : IsField h' v f := by
  obtain ⟨t, l, ht, hl, hf⟩ := hf
  exact ⟨t, l, he.typeOf ht, he.registry.layouts hl, hf⟩

theorem fieldLayout_meets (v : Value) (i : Nat) :
    Meets Learns (fieldLayout v i) h fun f h' => IsField h' v f := by
  unfold fieldLayout
  refine Meets.look_bind fun t ht => Meets.bind (layout_meets t) fun l h' hl hfind => ?_
  exact Meets.lift fun f hf => ⟨t, l, hl.typeOf ht, hfind, mem_of_field hf⟩

theorem fieldCount_meets (v : Value) : Meets Learns (fieldCount v) h fun _ _ => True := by
  unfold fieldCount
  exact Meets.look_bind fun t _ => Meets.bind (layout_meets t) fun _ _ _ _ => Meets.pure trivial

theorem read_meets (v : Value) (i : Nat) : Meets Learns (read v i) h fun _ _ => True := by
  unfold read
  exact Meets.bind (fieldLayout_meets v i) fun _ _ _ _ => Meets.look fun _ _ => trivial

theorem isDefined_meets (v : Value) (i : Nat) : Meets Learns (isDefined v i) h fun _ _ => True := by
  unfold isDefined
  refine Meets.bind (fieldLayout_meets v i) fun f h' _ _ => Meets.ite (fun _ => Meets.pure trivial) ?_
  exact fun _ => Meets.lift_bind fun _ _ => Meets.look_bind fun _ _ => Meets.pure trivial

theorem readByName_meets (v : Value) (name : Symbol) :
    Meets Learns (readByName v name) h fun _ _ => True := by
  unfold readByName
  refine Meets.look_bind fun t _ => Meets.bind (onRegistry_meets (Registry.fieldIndex_meets t name)) ?_
  exact fun i h' _ _ => read_meets v i

theorem readScalar_meets (k : ScalarKind) (v : Value) (i : Nat) :
    Meets Learns (readScalar k v i) h fun _ _ => True := by
  unfold readScalar
  exact Meets.bind (read_meets v i) fun _ _ _ _ => Meets.look fun _ _ => trivial

theorem readRef_meets (v : Value) (i : Nat) : Meets Learns (readRef v i) h fun _ _ => True := by
  unfold readRef
  refine Meets.bind (read_meets v i) fun d h' _ _ => ?_
  split
  · exact Meets.pure trivial
  · exact Meets.throw _

/-! ## Storing -/

/-- A field of an object lies inside the object. -/
theorem IsField.end_le (hf : IsField h v f) (hs : h.Sound) : v.offset + f.offset + f.size ≤ h.top := by
  obtain ⟨t, l, ht, hl, hf⟩ := hf
  have h1 := hs.registry.layouts.end_le hl hf
  have h2 := hs.end_le_top (hs.size_record ht hl hf)
  omega

theorem IsField.place_eq (hf : IsField h v f) (hs : h.Sound) : place v f = .ok (v.offset + f.offset) := by
  obtain ⟨t, l, ht, hl, hf⟩ := hf
  exact Record.place_eq hs ht hl hf

/-- A store changes the object that it stores in. It must not put a module in what lies in the module. -/
theorem store_meets (hs : h.Sound) (hf : IsField h v f) (hS : ∀ j, S v j) (x : Value)
    (houter : h.typeOf v = .ok Builtin.moduleType → f.isInline = false → x ≠ v →
      ¬Relation.ReflTransGen h.Inside x v) :
    Meets (Path S) (store v f x) h fun _ h' => Rewrites (fun w _ => w = v) h h' := by
  have hend := hf.end_le hs
  obtain ⟨t, l, ht, hl, hmem⟩ := hf
  have hin_end := hs.registry.layouts.end_le hl hmem
  have hn := hs.size_record ht hl hmem
  unfold store
  refine Meets.look_bind fun s hx => Meets.look_bind fun fits hfits => ?_
  refine Meets.ite (fun _ => Meets.get_bind (Meets.throw_bind _)) fun hyes => ?_
  have hisa : h.types.isa s f.type = .ok true := by
    rw [hfits]
    simpa using hyes
  refine Meets.lift_bind fun start hstart => ?_
  obtain ⟨-, rfl⟩ := Word.add_eq_ok.1 hstart
  refine Meets.ite (fun hin => ?_) fun hout => ?_
  · have hlen := Memory.length_window h.memory x.offset f.size
    refine (copyBytes_meets hend ?_).mono fun _ h' _ heq => ?_
    · exact .fieldBits ht hl hmem hin hlen (.object hx hisa) hS
    · rw [heq]
      exact .put hs.arena hn (by rw [hlen]; exact hin_end) fun _ _ _ => rfl
  · have hout : f.isInline = false := by simpa using hout
    have hsize := hs.registry.layouts.size_reference hl hmem hout
    rw [hsize, refSize] at hend hin_end
    have hstep : Step S h ((h.putWord v f.offset x.offset).guarded v x) := by
      refine .fieldRef ht hl hmem hout hx hisa (fun hm => ?_) hS
      exact houter (by rw [ht, hm]) hout
    refine (storeRef_meets hend hstep).mono fun _ h' _ heq => ?_
    have hput : Rewrites (fun w _ => w = v) h (h.putWord v f.offset x.offset) :=
      .putWord hs.arena hn hin_end fun _ _ _ => rfl
    rw [heq]
    exact hput.trans (.guarded (hput.arena hs.arena) v x)

/-- No module is put in itself when it is put in an object that no module lies in. -/
theorem not_inside_of_empty (hempty : ∀ w, ¬h.Inside w v) (hne : x ≠ v) : ¬Relation.ReflTransGen h.Inside x v := by
  intro hreach
  rcases hreach.cases_tail with heq | ⟨w, -, hw⟩
  · exact hne heq.symm
  · exact hempty w hw

/-- Stores in an object that no module lies in. -/
theorem storeAll_meets {pairs : List (FieldLayout × Value)} (hs : h.Sound)
    (hfields : ∀ p ∈ pairs, IsField h v p.1) (hS : ∀ j, S v j) (hempty : ∀ w, ¬h.Inside w v) :
    Meets (Path S) (storeAll v pairs) h fun _ _ => True := by
  induction pairs generalizing h with
  | nil => exact Meets.pure trivial
  | cons p pairs ih =>
    rw [List.forall_mem_cons] at hfields
    have houter := not_inside_of_empty (x := p.2) hempty
    refine Meets.bind (store_meets hs hfields.1 hS p.2 fun _ _ => houter) fun _ h' hpath hr => ?_
    have hs' := hpath.sound hs
    refine ih hs' (fun q hq => (hfields.2 q hq).extends (hpath.keeps hs).toExtends) fun w hin => hempty w ?_
    exact hr.keeps.inside_of hs hs' (hr.live_iff.1 hin.live) (fun _ => hin.2.symm) hin

/-! ## Changing fields -/

/-- The objects of a type can be changed. -/
def Mutable (h : Heap) (v : Value) : Prop := ∃ t, h.typeOf v = .ok t ∧ h.registry.isMutable t = .ok true

theorem mutable_of_check (hs : h.Sound) (hl : h.Learns h') (ht : h.typeOf v = .ok t)
    (hcheck : checkMutable h' t f = .ok ⟨⟩) : Mutable h v := by
  refine ⟨t, ht, ?_⟩
  obtain ⟨d, n, hd, -⟩ := hs.exists_shaped ht
  have hd' : h'.registry.table.descriptor t = .ok d := hl.extends.descriptor hd
  have hd : h.registry.table.descriptor t = .ok d := hd
  unfold checkMutable Registry.isMutable at hcheck
  unfold Registry.isMutable
  rw [hd'] at hcheck
  rw [hd]
  show Except.ok d.isMutable = .ok true
  cases hm : d.isMutable
  · have hcheck : (if (!d.isMutable) = true then _ else pure ⟨⟩ : Except Error Unit) = .ok ⟨⟩ := hcheck
    rw [hm] at hcheck
    obtain ⟨_, -, hcheck⟩ := bind_eq_ok.1 hcheck
    cases hcheck
  · rfl

end Record

/-! ## Modules -/

namespace ModuleObject

theorem name_meets (m : Value) : Meets Learns (name m) h fun _ _ => True :=
  Meets.look_bind fun _ _ => Record.readScalar_meets _ _ _

theorem parent_meets (m : Value) : Meets Learns (parent m) h fun _ _ => True := by
  unfold parent
  refine Meets.look_bind fun _ _ => Meets.bind (Record.read_meets m _) fun d h' _ _ => ?_
  split
  · exact Meets.pure trivial
  · exact Meets.throw _

theorem checkAbove_meets (m target : Value) (steps : Nat) (cur : Value) :
    Meets Learns (checkAbove m target steps cur) h fun _ _ => True := by
  induction steps generalizing h cur with
  | zero => exact Meets.throw _
  | succ steps ih =>
    unfold checkAbove
    refine Meets.ite (fun _ => ?_) fun _ => ?_
    · refine Meets.bind (name_meets m) fun _ _ _ _ => Meets.bind (name_meets target) fun _ _ _ _ => ?_
      exact Meets.throw_bind _
    · refine Meets.bind (parent_meets cur) fun next h' _ _ => ?_
      exact Meets.ite (fun _ => Meets.pure trivial) fun _ => ih next

theorem checkParent_meets (m : Value) (i : Nat) (p : Value) :
    Meets Learns (checkParent m i p) h fun _ _ => True := by
  unfold checkParent
  refine Meets.ite (fun _ => Meets.look_bind fun t _ => ?_) fun _ => Meets.pure trivial
  refine Meets.ite (fun _ => ?_) fun _ => Meets.pure trivial
  exact Meets.get_bind (checkAbove_meets m p _ p)

theorem namesAbove_meets (below : List Symbol) (steps : Nat) (cur : Value) :
    Meets Learns (namesAbove below steps cur) h fun _ _ => True := by
  induction steps generalizing h below cur with
  | zero => exact Meets.throw _
  | succ steps ih =>
    unfold namesAbove
    refine Meets.bind (parent_meets cur) fun p h' _ _ => ?_
    refine Meets.ite (fun _ => Meets.pure trivial) fun _ => ?_
    exact Meets.bind (name_meets p) fun n h' _ _ => ih _ p

theorem path_meets (m : Value) : Meets Learns (path m) h fun _ _ => True := by
  unfold path
  refine Meets.bind (name_meets m) fun n h₁ _ _ => Meets.get_bind ?_
  exact Meets.bind (namesAbove_meets _ _ m) fun _ _ _ _ => Meets.pure trivial

end ModuleObject

namespace Record

/-- A field of a module that refers to something is the one for the parent. -/
theorem eq_parentField (hs : h.Sound) (ht : h.typeOf v = .ok Builtin.moduleType)
    (hrun : (fieldLayout v i).runOn h = (.ok f, h')) (hout : f.isInline = false) :
    i = ModuleObject.parentField := by
  obtain ⟨l, hl⟩ := hs.exists_layout ht (hs.builtin rfl) rfl
  rw [runOn_fieldLayout hs ht hl] at hrun
  have hfield : l.field i = .ok f := congrArg Prod.fst hrun
  unfold Layout.field at hfield
  rw [hs.module_fields hl] at hfield
  match i with
  | 0 =>
    cases hfield
    cases hout
  | 1 => rfl
  | i + 2 => cases hfield

theorem write_meets (hr : Ready S h) (hS : Mutable h v → ∀ j, S v j) (i : Nat) (x : Value) :
    Meets (Path S) (write v i x) h fun _ _ => True := by
  unfold write
  refine Meets.look_bind fun t ht => ?_
  refine learns_bind (fieldLayout_meets v i).ran fun f h₁ hl hf => ?_
  obtain ⟨hrun, hf⟩ := hf
  refine Meets.look_bind fun _ hcheck => ?_
  have hS := hS (mutable_of_check hr.sound hl ht hcheck)
  have hs₁ := (hr.learns hl).sound
  refine Meets.ite (fun hm => ?_) fun hm => ?_
  · subst hm
    refine learns_bind (ModuleObject.checkParent_meets v i x).ran fun _ h₂ hl₂ hasked => ?_
    have hs₂ := (hr.learns (hl.trans hl₂)).sound
    refine (store_meets hs₂ (hf.extends hl₂.extends) hS x fun _ hout hne => ?_).mono fun _ _ _ _ => trivial
    -- The check looked at the same heap.
    obtain rfl := eq_parentField hr.sound ht hrun hout
    have hasks := checkParent_asks hs₁ v x
    have hkept := hasks.kept
    have hanswer := hasks.answer ⟨⟩
    rw [hasked.1] at hkept hanswer
    rw [← show h₁ = h₂ from hkept]
    exact hanswer rfl hne
  · refine (store_meets hs₁ hf hS x fun hm' => ?_).mono fun _ _ _ _ => trivial
    exact absurd (Except.ok.inj ((hl.typeOf ht).symm.trans hm')) hm

theorem writeScalar_meets (hr : Ready S h) (hS : Mutable h v → ∀ j, S v j) (i : Nat) (k : ScalarKind)
    (x : k.Carrier) : Meets (Path S) (writeScalar v i k x) h fun _ _ => True := by
  unfold writeScalar
  refine Meets.look_bind fun t ht => ?_
  refine learns_bind (fieldLayout_meets v i) fun f h₁ hl hf => ?_
  refine Meets.look_bind fun _ hcheck => ?_
  have hS := hS (mutable_of_check hr.sound hl ht hcheck)
  have hs := (hr.learns hl).sound
  refine Meets.ite (fun _ => Meets.get_bind (Meets.throw_bind _)) fun hplain => ?_
  rw [not_or, Decidable.not_not] at hplain
  have hin : f.isInline = true := by simpa using hplain.1
  refine Meets.lift_bind fun start hstart => ?_
  obtain ⟨-, rfl⟩ := Word.add_eq_ok.1 hstart
  refine storeScalar_meets fun bs table table' hrun hlen => ?_
  have hs' : ({ h₁ with symbols := table } : Heap).Sound := hs.of_symbols table
  have hf' : IsField { h₁ with symbols := table } v f := hf
  have hend := hf'.end_le hs'
  obtain ⟨s, l, hts, hl, hmem⟩ := hf'
  obtain ⟨l', hl', hbits, hsize⟩ := hs'.registry.layouts.inline hl hmem hin
  rw [hplain.2] at hl'
  have hsize' := (hs'.scalar_size hl').2
  have hfit : bs.length = f.size := by omega
  refine (writeBytes_meets (by rw [hfit]; exact hend) ?_).mono fun _ _ _ _ => trivial
  exact .fieldBits hts hl hmem hin hfit (.scalar hplain.2.symm hrun) hS

/-! ## Making -/

theorem newUninit_meets (hr : Ready S h) (t : TypeRef) :
    Meets (Path S) (newUninit t) h fun v h' => NewObject h h' v t 0 :=
  Meets.look_bind fun _ _ => allocate_meets hr t 0

/-- Values are stored in the fields of the object that has them. -/
theorem isField_of_zip (ht : h.typeOf v = .ok t) (hl : h.registry.layouts.find? t = some l) (args : List Value) :
    ∀ p ∈ l.fields.zip args, IsField h v p.1 := by
  rintro ⟨f, x⟩ hp
  exact ⟨t, l, ht, hl, (List.of_mem_zip hp).1⟩

/-- No module lies in a new object. -/
theorem not_inside_new {extra : Nat} (hv : NewObject h h' v t extra) (hs : h.Sound) (hs' : h'.Sound) (w : Value) :
    ¬h'.Inside w v := by
  intro hin
  have hw := (hv.only w hin.live).resolve_right fun heq => hin.2 heq.symm
  exact hv.fresh ((hv.kept.inside_of hs hs' hw (fun _ => id) hin).1.live hs)

theorem new_meets (hr : Ready S h) (t : TypeRef) (args : List Value) :
    Meets (Path S) (new t args) h fun v h' => ¬h.Live v ∧ h'.typeOf v = .ok t := by
  unfold new
  refine Meets.look_bind fun _ _ => ?_
  refine learns_bind (layout_meets t) fun l h₁ hl₁ hl => ?_
  have hr₁ := hr.learns hl₁
  refine Meets.ite (fun _ => ?_) fun _ => ?_
  · exact Meets.get_bind (Meets.lift_bind fun _ _ => Meets.throw_bind _)
  · refine Meets.bind (allocate_meets hr₁ t 0) fun v h₂ hpath₂ hv => ?_
    have hr₂ := hr₁.along hpath₂
    have hfields := isField_of_zip hv.type ((hpath₂.keeps hr₁.sound).registry.layouts hl) args
    have hempty := not_inside_new hv hr₁.sound hr₂.sound
    have hstore := storeAll_meets (S := S) hr₂.sound hfields (hr₁.fresh hv.fresh) hempty
    refine Meets.bind hstore fun _ h₃ hpath₃ _ => Meets.pure ⟨fun hlive => hv.fresh ?_, ?_⟩
    · exact hl₁.extends.live hlive
    · exact (hpath₃.keeps hr₂.sound).typeOf hv.type

/-- The value of a field is the reference in it, or a new box with the bits in it. -/
theorem readValue_meets (hr : Ready S h) (v : Value) (i : Nat) :
    Meets (Path S) (readValue v i) h fun _ _ => True := by
  unfold readValue
  refine learns_bind (fieldLayout_meets v i) fun f h₁ hl₁ hf => ?_
  have hr₁ := hr.learns hl₁
  refine Meets.lift_bind fun start hstart => ?_
  obtain ⟨-, rfl⟩ := Word.add_eq_ok.1 hstart
  refine Meets.ite (fun hin => ?_) fun _ => Meets.look fun _ _ => trivial
  refine Meets.bind (allocate_meets hr₁ f.type 0) fun box h₂ hpath₂ hbox => ?_
  have hs := (hr₁.along hpath₂).sound
  obtain ⟨t, l, ht, hl, hmem⟩ := hf.extends (hpath₂.keeps hr₁.sound).toExtends
  obtain ⟨l', hl', hbits, hsize⟩ := hs.registry.layouts.inline hl hmem hin
  have hend := hs.end_le_top (hs.size_bits hbox.type hl' hbits)
  have hcopy : Meets (Path S) (copyBytes (v.offset + f.offset) f.size box.offset) h₂ fun _ h' =>
      h' = h₂.put box 0 (h₂.memory.window (v.offset + f.offset) f.size) := by
    refine copyBytes_meets (k := 0) (by omega) ?_
    exact .bits hbox.type hl' hbits (by rw [Memory.length_window, hsize]) (.field ht hl hmem hin rfl)
      (hr₁.fresh hbox.fresh)
  exact Meets.bind hcopy fun _ _ _ _ => Meets.pure trivial

end Record

namespace ModuleObject

theorem new_meets (hr : Ready S h) (name : Symbol) (parent : Option Value) :
    Meets (Path S) (ModuleObject.new name parent) h fun m h' =>
      ¬h.Live m ∧ h'.typeOf m = .ok Builtin.moduleType := by
  have hmake : Meets (Path S) (do
      let m ← Record.newUninit Builtin.moduleType
      Record.writeScalar m nameField .symbol name
      Record.write m parentField (parent.getD m)
      return m : HeapM Value) h fun m h' => ¬h.Live m ∧ h'.typeOf m = .ok Builtin.moduleType := by
    refine Meets.bind (Record.newUninit_meets hr Builtin.moduleType) fun m h₁ hpath₁ hm => ?_
    have hr₁ := hr.along hpath₁
    have hS := hr.fresh hm.fresh
    refine Meets.bind (Record.writeScalar_meets hr₁ (fun _ => hS) _ _ _) fun _ h₂ hpath₂ _ => ?_
    have hr₂ := hr₁.along hpath₂
    refine Meets.bind (Record.write_meets hr₂ (fun _ => hS) _ _) fun _ h₃ hpath₃ _ => ?_
    refine Meets.pure ⟨hm.fresh, (hpath₃.keeps hr₂.sound).typeOf ?_⟩
    exact (hpath₂.keeps hr₁.sound).typeOf hm.type
  unfold ModuleObject.new
  cases parent with
  | some p => exact Meets.look_bind fun _ _ => hmake
  | none => exact Meets.pure_bind hmake

end ModuleObject

end TypedHeap
