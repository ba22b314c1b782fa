import TypedHeap.Proofs.Object.Boxing

/-!
# Setting one field

Whether a field takes a scalar or a reference, the field is all that changes in the heap, apart from a symbol that may
get its key. So an object that is described field by field is described so afterwards, with one field exchanged.

* `Record.FieldSet`: a field of an object was set.

Main results: `RecordOf.set`, `writeScalar_sets`, `store_ref_sets`.
-/

namespace TypedHeap

open TypedHeap.Action (Ends Yields runOn_bind_ok runOn_bind_error)
open Heap

variable {h h' : Heap} {v w y : Value} {t : TypeRef} {l : Layout} {e : FieldLayout} {c : Content} {cs : List Content}
  {i : Nat} {k : ScalarKind} {x : k.Carrier}

/-- Without a key for its symbol a scalar has no bytes, and the table stays as it is. -/
theorem ScalarKind.eq_of_encode_error {table table' : SymbolTable} {err : Error}
    (hrun : (k.encode x).runOn table = (.error err, table')) : table' = table := by
  cases k with
  | symbol =>
    have hrun : (SymbolTable.intern x >>= fun key => pure (LittleEndian.toBytes 4 key) :
      Action SymbolTable (List UInt8)).runOn table = (.error err, table') := hrun
    have hintern : (SymbolTable.intern x).runOn table = (.error err, table') := by
      rcases hkey : (SymbolTable.intern x).runOn table with ⟨e | key, table₁⟩
      · cases (runOn_bind_error hkey).symm.trans hrun
        rfl
      · cases (runOn_bind_ok hkey).symm.trans hrun
    unfold SymbolTable.intern at hintern
    rw [runOn_bind_ok (Action.runOn_get table)] at hintern
    split at hintern
    · cases hintern
    · split at hintern
      · cases hintern
      · cases hintern
        rfl
  | _ => cases hrun

namespace Record

/-- The bytes of a field. -/
def FieldBytes (v : Value) (e : FieldLayout) (w : Value) (j : Nat) : Prop :=
  w = v ∧ e.offset ≤ j ∧ j < e.offset + e.size

/-- A field of an object was set, and nothing else has changed. -/
structure FieldSet (v : Value) (e : FieldLayout) (c : Content) (h h' : Heap) : Prop where
  sound : h'.Sound
  rewrites : Rewrites (FieldBytes v e) h h'
  symbols : h.symbols.Grows h'.symbols
  field : h'.Says v e c

/-- A field of a layout takes a reference to an object of a type below its own. -/
theorem store_ref_sets (hs : h.Sound) (ht : h.typeOf v = .ok t) (hl : h.registry.layouts.find? t = some l)
    (he : e ∈ l.fields) (hc : Content.Suits e (.ref (some y))) (hy : h.isa y e.type = .ok true) :
    Yields (store v e y) h fun _ h' => FieldSet v e (.ref (some y)) h h' := by
  refine (store_ref_yields hs ht hl he hc hy).mono fun _ h' hdone => ?_
  obtain ⟨hfilled, hfield⟩ := hdone
  refine ⟨hfilled.sound, hfilled.rewrites.mono ?_, by rw [hfilled.symbols]; exact .refl _, hfield⟩
  rintro w j ⟨rfl, g, hg, hj⟩
  obtain rfl := List.mem_singleton.1 hg
  exact ⟨rfl, hj⟩

/-- A field that may change takes a scalar of its type, unless there is no key for it. Then nothing changes. -/
theorem writeScalar_sets (hs : h.Sound) (hkeys : h.symbols.Bounded) (ht : h.typeOf v = .ok t)
    (hmutable : h.registry.isMutable t = .ok true) (hl : h.registry.layouts.find? t = some l)
    (hfield : l.fields[i]? = some e) (hc : Content.Suits e (.scalar k x)) :
    Ends (writeScalar v i k x) h (fun _ => FieldSet v e (.scalar k x) h) (· = h) := by
  obtain ⟨htype, hsize, hin⟩ := hc
  have he := List.mem_of_getElem? hfield
  have hlayout := runOn_fieldLayout hs ht hl i
  rw [Layout.field_eq_ok.2 hfield] at hlayout
  have hwrite := runOn_writeScalar (k := k) (x := x) hs ht hl he hlayout (checkMutable_eq_ok hmutable) hin
  rw [scalarField, if_pos htype] at hwrite
  have hend := hs.registry.layouts.end_le hl he
  have hn := hs.size_record ht hl he
  have htop := hs.end_le_top hn
  have hreach := hs.arena.reach
  have hgrows : h.symbols.Grows (((k.encode x).runOn h.symbols).2) := by
    rw [ScalarKind.runOn_encode_symbols]
    exact SymbolTable.grows_listing _ _
  rcases hencode : (k.encode x).runOn h.symbols with ⟨err | bs, table⟩
  · obtain rfl := ScalarKind.eq_of_encode_error hencode
    have herror : (Heap.encode k x).runOn h = (.error err, h) := by rw [runOn_encode, hencode]
    exact .of_error (hwrite.trans (runOn_bind_error herror)) rfl
  · rw [hencode] at hgrows
    have hlength := length_encode hencode
    rw [runOn_storeScalar hencode (by omega)] at hwrite
    have hs' := hs.of_symbols table
    have hr : Rewrites (FieldBytes v e) h (({ h with symbols := table } : Heap).put v e.offset bs) :=
      (Rewrites.withSymbols _ h table).trans
        (.put hs'.arena hn (by omega) fun j hlo hhi => ⟨rfl, hlo, by omega⟩)
    refine .of_ok hwrite ⟨?_, hr, by rwa [put_symbols], ?_⟩
    · exact hs'.put_field ht hl he (by omega) fun hout => by rw [hin] at hout; cases hout
    · show k.decode _ _ = .ok x
      rw [put_symbols, window_put (by show _ ≤ h.memory.length; omega) hlength]
      exact ScalarKind.decode_of_encode hencode (hgrows.bounded hkeys)

end Record

/-- An object with one field set has the others as before. -/
theorem Heap.RecordOf.set (hr : h.RecordOf v t cs) (hs : h.Sound) (hl : h.registry.layouts.find? t = some l)
    (hfield : l.fields[i]? = some e) (hc : c.Suits e) (hset : Record.FieldSet v e c h h') :
    h'.RecordOf v t (cs.set i c) := by
  have hkeep := hset.rewrites
  obtain ⟨m, hm, hfields⟩ := hr.fields
  cases hl.symm.trans hm
  refine ⟨hkeep.typeOf_iff.2 hr.type, l, by rw [hkeep.registry]; exact hl, ?_⟩
  obtain ⟨hlength, hall⟩ := List.forall₂_iff_get.1 hfields
  refine List.forall₂_iff_get.2 ⟨by rw [List.length_set, hlength], fun j hj hj' => ?_⟩
  simp only [List.get_eq_getElem]
  by_cases hij : i = j
  · subst hij
    obtain ⟨hi, rfl⟩ := List.getElem?_eq_some_iff.1 hfield
    rw [List.getElem_set_self]
    exact ⟨hc, hset.field⟩
  · rw [List.getElem_set_ne hij]
    have hj'' : j < cs.length := by rwa [List.length_set] at hj'
    obtain ⟨hsuits, hfield'⟩ := hall j hj hj''
    have hmem := List.getElem_mem hj
    have hsep := Record.separate_of_ne hs hl (List.getElem?_eq_getElem hj) hfield (Ne.symm hij)
    refine ⟨hsuits, hfield'.keeps hsuits (hs.size_record hr.type hl hmem)
      (hs.registry.layouts.end_le hl hmem) hkeep.keeps (fun k hlo hhi hin => ?_) hset.symbols⟩
    obtain ⟨-, hlo', hhi'⟩ := hin
    rw [Layout.Separate] at hsep
    simp only [List.get_eq_getElem] at hlo hhi
    omega

end TypedHeap
