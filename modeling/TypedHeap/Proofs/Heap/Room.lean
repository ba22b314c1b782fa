import TypedHeap.Proofs.Heap.Runs
import TypedHeap.Proofs.Heap.Symbols
import TypedHeap.Proofs.Layout.Simple

/-!
# Room for new objects

Operations that make objects out of objects that fit together fail for two reasons only: the memory must
not grow any further, or there is no key left for a symbol.

* `Demand`: the objects that an operation makes and the symbols that it lists.
* `Heap.Affords`: there is memory for the objects, and a key for each of the symbols.
* `Heap.Made`: the objects were made and the symbols were listed, and nothing else happened.
* `Heap.Makes`: an operation succeeds with that, and its answer is as said.

Main results: `Makes.bind`, `allocate_makes`.
-/

namespace TypedHeap

open TypedHeap.Action (Yields)

/-! ## Demands -/

/-- Payload sizes of new objects, in order, and symbols that need keys. -/
structure Demand where
  payloads : List Nat
  symbols : List Symbol

namespace Demand

def nothing : Demand := ⟨[], []⟩

/-- One object. -/
def object (n : Nat) : Demand := ⟨[n], []⟩

/-- One demand, and then another one. -/
instance : Append Demand := ⟨fun d e => ⟨d.payloads ++ e.payloads, d.symbols ++ e.symbols⟩⟩

end Demand

namespace Heap

variable {α β : Type} {h h' h'' : Heap} {v : Value} {t : TypeRef} {d e : Demand} {n extra : Nat} {l : Layout}
  {c : Descriptor} {P : α → Heap → Prop} {Q : β → Heap → Prop}

/-- Where the last one of new objects behind `top` ends. -/
def endBehind (top : Nat) (payloads : List Nat) : Nat :=
  payloads.foldl (fun top n => alignUp (top + headerSize) payloadAlign + n) top

theorem endBehind_append (top : Nat) (ns ms : List Nat) :
    endBehind top (ns ++ ms) = endBehind (endBehind top ns) ms :=
  List.foldl_append

theorem le_endBehind (top : Nat) (ns : List Nat) : top ≤ endBehind top ns := by
  induction ns generalizing top with
  | nil => exact Nat.le_refl top
  | cons n ns ih =>
    have hstart : top + headerSize ≤ alignUp (top + headerSize) payloadAlign := le_alignUp (by decide)
    have hrest := ih (alignUp (top + headerSize) payloadAlign + n)
    show top ≤ endBehind (alignUp (top + headerSize) payloadAlign + n) ns
    omega

/-- A heap has memory for the objects of a demand, and keys for its symbols. -/
structure Affords (h : Heap) (d : Demand) : Prop where
  room : endBehind h.top d.payloads ≤ h.limit
  keys : h.symbols.AdmitsAll d.symbols

theorem Affords.left (ha : h.Affords (d ++ e)) : h.Affords d where
  room := by
    have hroom : endBehind h.top (d.payloads ++ e.payloads) ≤ h.limit := ha.room
    rw [endBehind_append] at hroom
    exact Nat.le_trans (le_endBehind _ _) hroom
  keys := (SymbolTable.admitsAll_append.1 ha.keys).1

/-! ## What was made -/

/-- A sound heap whose types are made of earlier types and whose keys are numbers of 32 bits. -/
structure Orderly (h : Heap) : Prop where
  sound : h.Sound
  types : h.types.Ordered
  keys : h.symbols.Bounded

theorem Orderly.along {S : Value → Nat → Prop} (ho : h.Orderly) (path : Path S h h') : h'.Orderly where
  sound := path.sound ho.sound
  types := TypeTable.Path.ordered (path.trail.grows ho.sound).types ho.types
  keys := (path.trail.symbols ho.sound).bounded ho.keys

/-- Objects were made and symbols were listed as a demand says. -/
structure Made (d : Demand) (h h' : Heap) : Prop where
  sound : h'.Sound
  grows : h.registry.Grows h'.registry
  keeps : Keeps (fun w _ => ¬h.Live w) h h'
  top : h'.top = endBehind h.top d.payloads
  config : h'.config = h.config
  symbols : h'.symbols = h.symbols.listing d.symbols

namespace Made

theorem refl (hs : h.Sound) : Made .nothing h h := ⟨hs, .refl _, .refl _ h, rfl, rfl, rfl⟩

theorem learns (hs : h.Sound) (hl : h.Learns h') : Made .nothing h h' where
  sound := hs.learns hl
  grows := (Step.learns (S := fun _ _ => False) hl).grows hs
  keeps := hl.keeps _
  top := by obtain ⟨r, -, rfl⟩ := hl; rfl
  config := by obtain ⟨r, -, rfl⟩ := hl; rfl
  symbols := hl.symbols

/-- Symbols were listed, and nothing was made. -/
theorem listed (hs : h.Sound) (ss : List Symbol) :
    Made ⟨[], ss⟩ h { h with symbols := h.symbols.listing ss } where
  sound := hs.of_symbols _
  grows := .refl _
  keeps := (Rewrites.withSymbols _ h _).keeps
  top := rfl
  config := rfl
  symbols := rfl

theorem trans (hm : Made d h h') (hm' : Made e h' h'') : Made (d ++ e) h h'' where
  sound := hm'.sound
  grows := hm.grows.trans hm'.grows
  keeps := hm.keeps.trans ⟨hm'.keeps.toExtends, fun hn hk hw =>
    hm'.keeps.bytes hn hk fun hdead => hw fun hlive => hdead (hm.keeps.live hlive)⟩
  top := by
    rw [hm'.top, hm.top]
    exact (endBehind_append _ _ _).symm
  config := hm'.config.trans hm.config
  symbols := by
    rw [hm'.symbols, hm.symbols]
    exact (SymbolTable.listing_append _ _ _).symm

/-- Objects that were made may be written to. -/
theorem rewrites {S : Value → Nat → Prop} (hm : Made d h h') (hr : Rewrites S h' h'') (hs : h''.Sound)
    (hS : ∀ w k, S w k → ¬h.Live w) (hsymbols : h''.symbols = h'.symbols) : Made d h h'' where
  sound := hs
  grows := by rw [hr.registry]; exact hm.grows
  keeps := hm.keeps.trans (hr.mono hS).keeps
  top := hr.top.trans hm.top
  config := hr.config.trans hm.config
  symbols := hsymbols.trans hm.symbols

theorem orderly (hm : Made d h h') (ho : h.Orderly) : h'.Orderly where
  sound := hm.sound
  types := TypeTable.Path.ordered hm.grows.types ho.types
  keys := by
    rw [hm.symbols]
    exact (SymbolTable.grows_listing _ _).bounded ho.keys

theorem symbols_grow (hm : Made d h h') : h.symbols.Grows h'.symbols := by
  rw [hm.symbols]
  exact SymbolTable.grows_listing _ _

end Made

theorem Affords.after (ha : h.Affords (d ++ e)) (hm : Made d h h') : h'.Affords e where
  room := by
    have hroom : endBehind h.top (d.payloads ++ e.payloads) ≤ h.limit := ha.room
    rw [endBehind_append] at hroom
    rw [hm.top, limit, hm.config]
    exact hroom
  keys := by
    rw [hm.symbols]
    exact (SymbolTable.admitsAll_append.1 ha.keys).2

/-- An operation succeeds, and makes what a demand says. -/
def Makes (d : Demand) (x : HeapM α) (h : Heap) (P : α → Heap → Prop) : Prop :=
  Yields x h fun a h' => Made d h h' ∧ P a h'

namespace Makes

variable {x : HeapM α} {f : α → HeapM β}

theorem pure {a : α} (hs : h.Sound) (hP : P a h) : Makes .nothing (Pure.pure a) h P :=
  Yields.pure ⟨.refl hs, hP⟩

theorem mono {P' : α → Heap → Prop} (hx : Makes d x h P) (hP : ∀ a h', Made d h h' → P a h' → P' a h') :
    Makes d x h P' :=
  Yields.mono hx fun a h' ha => ⟨ha.1, hP a h' ha.1 ha.2⟩

/-- The second part has the rest of what a heap affords. -/
theorem bind (ha : h.Affords (d ++ e)) (hx : h.Affords d → Makes d x h P)
    (hf : ∀ a h', Made d h h' → h'.Affords e → P a h' → Makes e (f a) h' Q) :
    Makes (d ++ e) (x >>= f) h Q := by
  refine Yields.bind (hx ha.left) fun a h' hdone => ?_
  refine Yields.mono (hf a h' hdone.1 (ha.after hdone.1) hdone.2) fun b h'' hb => ?_
  exact ⟨hdone.1.trans hb.1, hb.2⟩

/-- A first part that makes nothing. -/
theorem bind_learns (hs : h.Sound) (ha : h.Affords d)
    (hx : Yields x h fun a h' => h.Learns h' ∧ P a h')
    (hf : ∀ a h', h.Learns h' → h'.Affords d → P a h' → Makes d (f a) h' Q) : Makes d (x >>= f) h Q :=
  bind (d := .nothing) ha (fun _ => Yields.mono hx fun _ _ hdone => ⟨.learns hs hdone.1, hdone⟩)
    fun a h' _ ha' hdone => hf a h' hdone.1 ha' hdone.2

theorem bind_ok {a : α} (hx : x.runOn h = (.ok a, h)) (hf : Makes d (f a) h Q) : Makes d (x >>= f) h Q :=
  Yields.bind_ok hx hf

theorem look_bind {f : Heap → Except Error α} {g : α → HeapM β} {a : α} (hf : f h = .ok a)
    (hg : Makes d (g a) h Q) : Makes d (Action.look f >>= g) h Q :=
  Yields.look_bind hf hg

end Makes

/-! ## Allocation -/

/-- A type that is laid out answers with its layout. -/
theorem layout_yields (ho : h.Orderly) (hl : Layouts.LaidOut h.types t l) :
    Yields (layout t) h fun l' h' => h.Learns h' ∧ l' = l ∧ h'.registry.layouts.find? t = some l := by
  have hrun : ((layout t).runOn h).1 = .ok l := hl.answer ho.sound.registry.types ho.types ho.sound.registry.layouts
  have hmeets := layout_meets (h := h) t
  exact .of_ok (Prod.ext hrun rfl) ⟨hmeets.kept, rfl, hmeets.answer l hrun⟩

theorem sizeOf_yields (ho : h.Orderly) (hl : Layouts.LaidOut h.types t l) :
    Yields (sizeOf t) h fun n h' => h.Learns h' ∧ n = l.size := by
  have houtcome := outcome_sizeOf t h
  have hrun : ((layout t).runOn h).1 = .ok l := hl.answer ho.sound.registry.types ho.types ho.sound.registry.layouts
  rw [hrun] at houtcome
  exact .of_ok (Prod.ext houtcome rfl) ⟨(sizeOf_meets t).kept, rfl⟩

/-- A scalar is stored inline. -/
theorem isInline_scalar_yields (ho : h.Orderly) (k : ScalarKind) :
    Yields (isInline k.type) h fun b h' => h.Learns h' ∧ b = true ∧ h'.registry.Inline k.type true := by
  have hl := Layouts.laidOut_scalar ho.sound.registry.types ho.types k
  have houtcome := outcome_isInline k.type h
  have hrun : ((layout k.type).runOn h).1 = .ok _ := hl.answer ho.sound.registry.types ho.types ho.sound.registry.layouts
  have hd : h.types.descriptor k.type = .ok _ := Layouts.descriptor_scalar ho.sound.registry.types k
  rw [hrun, hd] at houtcome
  have houtcome : ((isInline k.type).runOn h).1 = .ok true := houtcome
  have hmeets := isInline_meets (h := h) k.type
  exact .of_ok (Prod.ext houtcome rfl) ⟨hmeets.kept, rfl, hmeets.answer true houtcome⟩

@[simp] theorem allocated_top : (h.allocated v c extra n).top = v.offset + n := by
  unfold allocated
  split
  · rw [putWord, put_top, placed_top]
  · exact placed_top

@[simp] theorem allocated_config : (h.allocated v c extra n).config = h.config := by
  unfold allocated
  split
  · rw [putWord, put_config, placed_config]
  · exact placed_config

/-- An object is made if its size is known and there is room for it. -/
theorem allocate_makes (ho : h.Orderly) (hc : h.types.descriptor t = .ok c)
    (hsize : Yields (payloadSize c extra) h fun m h' => h.Learns h' ∧ m = n) (ha : h.Affords (.object n)) :
    Makes (.object n) (allocate t extra) h fun v h' => NewObject h h' v t extra := by
  rw [allocate_eq]
  refine Makes.bind_ok (Action.runOn_get h) (Makes.look_bind (f := fun _ => h.types.descriptor t) hc ?_)
  have hsize := hsize.ends (Action.Ends.of_meets (payloadSize_meets c extra))
  refine Yields.bind hsize fun m h₁ hdone => ?_
  obtain ⟨⟨hl, rfl⟩, -, hm⟩ := hdone
  have hmade := Made.learns ho.sound hl
  have hs₁ := hmade.sound
  have hc₁ := hl.extends.descriptor hc
  have href : c.ref = t := hs₁.registry.types.ref_eq hc₁
  have hrest : h₁.Affords (.object m) := Affords.after (d := .nothing) ha hmade
  have hroom : h₁.nextStart + m ≤ h₁.limit := hrest.room
  obtain ⟨v, hv, hrun⟩ := runOn_place href (fun hlength => (hm.word_lt hlength).2) hroom
  have hend : v.offset + m ≤ h₁.limit := by rw [hv]; exact hroom
  have hnew : NewObject h (h₁.allocated v c extra m) v t extra :=
    newObject_allocated ho.sound hl hc₁ hm hv hend
  refine .of_ok hrun ⟨⟨hs₁.allocated hc₁ hm hv hend, ?_, ?_, ?_, ?_, ?_⟩, hnew⟩
  · rw [(allocated_added hs₁ hc₁ hm hv hend).registry]
    exact hmade.grows
  · exact ⟨hnew.kept.toExtends, fun hn hk _ => hnew.kept.bytes hn hk id⟩
  · rw [allocated_top, hv, nextStart, hmade.top]
    rfl
  · rw [allocated_config, hmade.config]
  · rw [allocated_symbols, hmade.symbols]
    rfl

/-- Objects of bits and structs are as large as their type says. -/
theorem allocate_fixed_makes (ho : h.Orderly) (hc : h.types.descriptor t = .ok c)
    (hkind : c.kind = .struct ∨ ∃ size align, c.kind = .primitive size align)
    (hsize : Yields (sizeOf t) h fun m h' => h.Learns h' ∧ m = n) (ha : h.Affords (.object n)) :
    Makes (.object n) (allocate t 0) h fun v h' => NewObject h h' v t 0 := by
  refine allocate_makes ho hc ?_ ha
  rw [← ho.sound.registry.types.ref_eq hc] at hsize
  unfold payloadSize
  rcases hkind with hkind | ⟨size, align, hkind⟩ <;> rw [hkind] <;> exact hsize

/-- Arrays have a word for each dimension, and five others. -/
theorem allocate_array_makes {elem : TypeRef} {ndims : Int64} (ho : h.Orderly)
    (ht : h.types.Stands Builtin.arrayFamily [.type elem, .int ndims] t) (hndims : ndims.toInt = extra)
    (ha : h.Affords (.object (ownerOffset extra + refSize))) :
    Makes (.object (ownerOffset extra + refSize)) (allocate t extra) h fun v h' => NewObject h h' v t extra := by
  have hl := Layouts.laidOut_array ho.types ht
  obtain ⟨c, hc, hfamily, hparams⟩ := ht
  refine allocate_makes ho hc ?_ ha
  have hsize := sizeOf_yields ho hl
  rw [← ho.sound.registry.types.ref_eq hc, hndims] at hsize
  have hkind : c.kind = .array := by
    rw [Descriptor.kind, hfamily]
    rfl
  unfold payloadSize
  rw [hkind, hparams]
  refine Yields.look_bind (f := fun _ => Params.get [.type elem, .int ndims] 1) rfl ?_
  show Yields (if ndims.toInt ≠ extra then _ else _) h _
  rw [if_neg (not_not_intro hndims)]
  exact hsize

/-- Buffers have a word for their length in front of their bytes. -/
theorem allocate_buffer_makes (ho : h.Orderly) (ha : h.Affords (.object (refSize + extra))) :
    Makes (.object (refSize + extra)) (allocate Builtin.buffer extra) h fun v h' =>
      NewObject h h' v Builtin.buffer extra := by
  refine allocate_makes ho ho.sound.descriptor_buffer ?_ ha
  have hroom : h.nextStart + (refSize + extra) ≤ h.limit := ha.room
  have hlimit : h.limit < 0x10000000000000000 := h.config.maxBytes.toNat_lt
  have hfits : refSize + extra ≤ maxWord := by
    rw [maxWord]
    omega
  show Yields (checkedSize (refSize + extra)) h _
  unfold checkedSize
  rw [if_pos hfits]
  exact Yields.pure ⟨.refl h, rfl⟩

end Heap

end TypedHeap
