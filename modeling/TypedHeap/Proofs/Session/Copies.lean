import TypedHeap.Proofs.Array.Copies
import TypedHeap.Proofs.Session.Layouts
import TypedHeap.Proofs.Session.Safety

/-!
# Copies along a run

A value is copied into a field or an element that is stored in place, and out of it into a box. The number of
bytes comes from the layout of the field or from the array, and the only thing that is asked about the value is
whether its type fits. At any time that makes sure that a value is copied as a whole, to or from a place that is as
large as it is.

* `Session.Storing`: when a value is put in a field.
* `Session.CopiesExactly`: what is copied by each branch that copies bytes, and how much.

Main result: `Session.Reachable.copies_exact`.
-/

namespace TypedHeap.Session

open Heap Record ArrayObject

variable {s : Session} {v : Value} {e : FieldLayout} {h : Heap}

/-- Heaps in which a value is put in a field: in the middle of an operation that changes the field, and of one that
makes an object and stores what it was given, one value after the other. -/
inductive Storing (s : Session) (v : Value) (e : FieldLayout) : Heap → Prop
  | change {i : Nat} {h : Heap} (asked : (fieldLayout v i).runOn s.heap = (.ok e, h)) : Storing s v e h
  | making {t : TypeRef} {args : List Value} {l : Layout} {k : Nat} {x : Value} {h₁ h₂ h : Heap}
      (asked : (layout t).runOn s.heap = (.ok l, h₁)) (made : (allocate t 0).runOn h₁ = (.ok v, h₂))
      (stored : (storeAll v ((l.fields.zip args).take k)).runOn h₂ = (.ok ⟨⟩, h))
      (next : (l.fields.zip args)[k]? = some (e, x)) : Storing s v e h

/-- Where bytes are copied, they are those of one value, and they go to a place for just such a value. -/
structure CopiesExactly (s : Session) : Prop where
  /-- An inline field takes what has a type below its own. That is its own type, and all of the object is copied. -/
  fieldStores : ∀ {v e h x t}, s.Storing v e h → e.isInline = true → h.typeOf x = .ok t →
    h.types.isa t e.type = .ok true →
    (store v e x).runOn h = (copyBytes x.offset e.size (v.offset + e.offset)).runOn h ∧ t = e.type ∧
      h.Matches e.type x (v.offset + e.offset) e.size
  /-- The value of an inline field is copied to a new box. -/
  fieldReads : ∀ {v i e h₁ box h₂}, (fieldLayout v i).runOn s.heap = (.ok e, h₁) → e.isInline = true →
    (allocate e.type 0).runOn h₁ = (.ok box, h₂) →
    (readValue v i).runOn s.heap =
        (do copyBytes (v.offset + e.offset) e.size box.offset; return box : HeapM Value).runOn h₂ ∧
      h₂.Matches e.type box (v.offset + e.offset) e.size
  /-- A slot of an array takes what has the type of the elements. -/
  elementStores : ∀ {a f i x}, info s.heap a = .ok f → i < f.length → f.flags.storage = .flat →
    s.heap.typeOf x = .ok f.elem →
    (set a i x).runOn s.heap =
        (copyBytes x.offset f.flags.slotSize (f.buffer.offset + (refSize + f.slotOffset i))).runOn s.heap ∧
      s.heap.Matches f.elem x (f.buffer.offset + (refSize + f.slotOffset i)) f.flags.slotSize
  /-- A slot with a selector takes what has the type of a member. The rest of the slot is cleared. -/
  memberStores : ∀ {a f i x t k}, info s.heap a = .ok f → i < f.length → f.flags.storage = .selected →
    s.heap.typeOf x = .ok t → selectorOf s.heap f t = .ok k → ∃ n, s.heap.objectSize x = .ok n ∧
    (set a i x).runOn s.heap =
        (do
          copyBytes x.offset n (f.buffer.offset + (refSize + f.slotOffset i))
          clearBytes (f.buffer.offset + (refSize + f.slotOffset i + n)) (f.flags.slotSize - n)
          writeBytes (f.buffer.offset + (refSize + f.selectorOffset i)) [k] : HeapM Unit).runOn s.heap ∧
      s.heap.Matches t x (f.buffer.offset + (refSize + f.slotOffset i)) n
  /-- The value of an element is copied to a new box, if it is bits. The slot holds bits of just that type. -/
  elementReads : ∀ {a i t bs h₁ box h₂}, (get a i).runOn s.heap = (.ok (.bits t bs), h₁) →
    (allocate t 0).runOn h₁ = (.ok box, h₂) → ∃ f, info h₁ a = .ok f ∧ i < f.length ∧
    h₂.ElementBits f i t bs.length ∧
    (getValue a i).runOn s.heap =
        (do
          copyBytes (f.buffer.offset + (refSize + f.slotOffset i)) bs.length box.offset
          return box : HeapM Value).runOn h₂ ∧
      h₂.Matches t box (f.buffer.offset + (refSize + f.slotOffset i)) bs.length
  /-- Of the types with objects only one is below a type that is stored in place, that type itself. -/
  types : ∀ {t u d h}, s.heap.types.descriptor t = .ok d → d.kind.isInstantiable = true →
    (isInline u).runOn s.heap = (.ok true, h) → (s.heap.types.isa t u = .ok true ↔ t = u)

/-- While values are put in fields the heap is in order, and the field is one of the object. -/
theorem Storing.inOrder (hstoring : s.Storing v e h) (hs : Reachable s) :
    InOrder (fun _ => True) h ∧ IsField h v e := by
  have ho : InOrder (fun _ => True) s.heap := hs.inOrder.mono fun _ _ => trivial
  cases hstoring with
  | change asked =>
    obtain ⟨hl, hf⟩ := (fieldLayout_meets v _).answered asked
    exact ⟨ho.learns hl, hf⟩
  | @making t args l k x h₁ h₂ _ asked made stored next =>
    obtain ⟨hl₁, hl⟩ := (layout_meets t).answered asked
    have ho₁ := ho.learns hl₁
    obtain ⟨hpath, hnew⟩ := (allocate_meets (S := fun w _ => ¬h₁.Live w) ⟨ho₁.sound, fun hw _ => hw⟩ t 0).answered made
    have ho₂ := ho₁.added hpath hnew fun _ => trivial
    have hfields := isField_of_zip hnew.type (hnew.kept.registry.layouts hl) args
    have hbefore := fun p hp => hfields p (List.mem_of_mem_take (i := k) hp)
    have hempty := not_inside_new hnew ho₁.sound ho₂.sound
    have horder := (storeAll_behaves ho₂ hbefore hempty).order
    have hkept := (storeAll_meets (S := fun w _ => w = v) ho₂.sound hbefore (fun _ => rfl) hempty).kept
    rw [stored] at horder hkept
    exact ⟨horder, (hfields _ (List.mem_of_getElem? next)).extends (hkept.keeps ho₂.sound).toExtends⟩

/-- In every heap that operations lead to, copies are exact. -/
theorem Reachable.copies_exact (hs : Reachable s) : s.CopiesExactly where
  fieldStores hstoring hin hx hisa := by
    obtain ⟨ho, hf⟩ := hstoring.inOrder hs
    exact store_copies ho hf hin hx hisa
  fieldReads hfield hin hmade := readValue_copies hs.sound.heap hfield hin hmade
  elementStores hinfo hi hflat hx := set_copies_flat hs.sound.heap (hs.sound.heap.info_iff.1 hinfo) hi hflat hx
  memberStores hinfo hi hselected hx hk :=
    set_copies_member hs.sound.heap (hs.sound.heap.info_iff.1 hinfo) hi hselected hx hk
  elementReads hget hmade := getValue_copies_element hs.sound.heap hget hmade
  types hd hkind hinline := hs.inOrder.isa_iff_eq hd hkind hinline

/-- A number, a tuple that holds it in place, and a vector of elements of two sizes, the second of which is that
number. -/
def inlaid : Session :=
  start ⟨64, 4096⟩ .off
    |>.next (.tupleType [Builtin.int16])
    |>.next (.union [Builtin.int16, Builtin.bool])
    |>.next (.box .int16 300)
    |>.next (.newRecord (tier 0) [object 16])
    |>.next (.newVector (tier 1) 2)
    |>.next (.elementWrite (object 80) 1 (object 16))

/-- The field and the first slot of the vector take the two bytes of the number, and a box gets them back from the
second slot. -/
theorem copies_exact_inlaid :
    Reachable inlaid ∧ inlaid.CopiesExactly ∧
      (∃ h : Heap, inlaid.Storing (object 32) ⟨"1", Builtin.int16, 0, 2, true⟩ h ∧
        h.Matches Builtin.int16 (object 16) 32 2) ∧
      inlaid.heap.Matches Builtin.int16 (object 16) 56 2 ∧
      (∃ h : Heap, h.Matches Builtin.int16 (object 144) 58 2) ∧
      inlaid.heap.types.isa Builtin.int16 Builtin.int8 ≠ .ok true := by
  have hs : Reachable inlaid :=
    ((((((reachable_start _ _).next _ (allows_of_none rfl)).next _ (allows_of_none rfl)).next _
      (allows_of_none rfl)).next _ (allows_of_none rfl)).next _ (allows_of_none rfl)).next _ (allows_of_none rfl)
  have hcopies := hs.copies_exact
  refine ⟨hs, hcopies, ?field, ?member, ?box, ?types⟩
  case field =>
    obtain ⟨hfield, hx⟩ :
        ((fieldLayout (object 32) 0).runOn inlaid.heap).1 = .ok ⟨"1", Builtin.int16, 0, 2, true⟩ ∧
        ((fieldLayout (object 32) 0).runOn inlaid.heap).2.typeOf (object 16) = .ok Builtin.int16 := by
      decide +kernel
    rcases hrun : (fieldLayout (object 32) 0).runOn inlaid.heap with ⟨r, h⟩
    rw [hrun] at hfield hx
    cases hfield
    exact ⟨h, .change hrun, (hcopies.fieldStores (.change hrun) rfl hx (TypeTable.isa_self _ _)).2.2⟩
  case member =>
    obtain ⟨hinfo, hsize, hx, hk⟩ :
        info inlaid.heap (object 80) = .ok ⟨tier 1, ⟨1, .selected, false, 2⟩, 2, 2, object 48⟩ ∧
        inlaid.heap.objectSize (object 16) = .ok 2 ∧ inlaid.heap.typeOf (object 16) = .ok Builtin.int16 ∧
        selectorOf inlaid.heap ⟨tier 1, ⟨1, .selected, false, 2⟩, 2, 2, object 48⟩ Builtin.int16 = .ok 1 := by
      decide +kernel
    obtain ⟨n, hn, -, hmember⟩ := hcopies.memberStores hinfo (by decide : 0 < 2) rfl hx hk
    cases hsize.symm.trans hn
    exact hmember
  case box =>
    obtain ⟨hget, hinfo, hbox⟩ :
        ((get (object 80) 1).runOn inlaid.heap).1 = .ok (.bits Builtin.int16 [44, 1]) ∧
        info ((get (object 80) 1).runOn inlaid.heap).2 (object 80) =
          .ok ⟨tier 1, ⟨1, .selected, false, 2⟩, 2, 2, object 48⟩ ∧
        ((allocate Builtin.int16 0).runOn ((get (object 80) 1).runOn inlaid.heap).2).1 = .ok (object 144) := by
      decide +kernel
    rcases hrun : (get (object 80) 1).runOn inlaid.heap with ⟨r, h⟩
    rw [hrun] at hget hinfo hbox
    cases hget
    obtain ⟨f, hf, -, -, -, hread⟩ := hcopies.elementReads hrun (Prod.ext hbox rfl)
    cases hinfo.symm.trans hf
    exact ⟨_, hread⟩
  case types =>
    have hinline : ((isInline Builtin.int8).runOn inlaid.heap).1 = .ok true := by decide +kernel
    obtain ⟨d, hd, hkind⟩ := exists_answer (x := inlaid.heap.types.descriptor Builtin.int16)
      (g := fun d => d.kind.isInstantiable) (b := true) (by decide +kernel)
    rcases hrun : (isInline Builtin.int8).runOn inlaid.heap with ⟨r, h⟩
    rw [hrun] at hinline
    cases hinline
    exact mt (hcopies.types hd hkind hrun).1 (by decide)

end TypedHeap.Session
