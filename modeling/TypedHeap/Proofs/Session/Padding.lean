import TypedHeap.Proofs.Layout.Padding
import TypedHeap.Proofs.Session.Layouts

/-!
# Padding along a run

What a layout reports is padding between and behind the fields of the type itself. For padding at every depth one has
to look at the layouts of all that lies inline inside it.

Main results: `Session.Reachable.padding_reported`, and `Session.padding_unreported`, where a layout without padding is
that of values with bytes in no leaf.
-/

namespace TypedHeap

open Heap

namespace Session

variable {s : Session} {t : TypeRef} {d : Descriptor} {l : Layout} {h : Heap}

/-- In every heap that operations lead to, the layout of a struct or tuple reports no padding if and only if every byte
lies in a field, and every byte lies in a leaf if and only if neither the type nor anything that lies inline inside it,
however deep, has a layout that reports padding. -/
theorem Reachable.padding_reported (hs : Reachable s) (hd : s.heap.types.descriptor t = .ok d)
    (hkind : d.kind = .struct ∨ d.kind = .tuple)
    (hrun : (Operation.layout t).perform.runOn s.heap = (.ok l, h)) :
    (l.hasPadding = false ↔ ∀ k, k < l.size → Layout.Fills l.fields k) ∧
    ((∀ k, k < l.size → h.registry.Covered t k) ↔
      ∀ off u m, h.registry.Inlines t off u → ((Registry.layout u).runOn h.registry).1 = .ok m →
        m.hasPadding = false) := by
  obtain ⟨memo, rfl, hmemo, hl⟩ := layout_remembered hs.sound.heap.registry hrun
  have hr : Registry.Sound { s.heap.registry with layouts := memo } := ⟨hs.sound.heap.registry.types, hmemo⟩
  exact ⟨hr.hasPadding_iff hd hkind hl, hr.covered_iff hs.ordered hd (.inr hkind) hl⟩

/-- In a pair of numbers between a number and a string, padding is reported in front of the pair. -/
theorem padding_reported_tiered :
    Reachable tiered ∧ ∃ d l h, tiered.heap.types.descriptor (tier 1) = .ok d ∧ d.kind = .tuple ∧
      (Operation.layout (tier 1)).perform.runOn tiered.heap = (.ok l, h) ∧ l.hasPadding = true ∧
      ¬∀ k, k < l.size → Layout.Fills l.fields k := by
  have hs : Reachable tiered := ((reachable_start _ _).next _ (allows_of_none rfl)).next _ (allows_of_none rfl)
  have hkind : (tiered.heap.types.descriptor (tier 1)).toOption.map Descriptor.kind = some .tuple := by
    decide +kernel
  have hpadding : ((Operation.layout (tier 1)).perform.runOn tiered.heap).1.toOption.map Layout.hasPadding =
      some true := by
    decide +kernel
  obtain ⟨d, hd, hkind⟩ := exists_answer hkind
  obtain ⟨l, hl, hpadding⟩ := exists_answer hpadding
  have hreported := hs.padding_reported hd (.inr hkind) (Prod.ext hl rfl)
  refine ⟨hs, d, l, _, hd, hkind, Prod.ext hl rfl, hpadding, fun hall => ?_⟩
  rw [hreported.1.2 hall] at hpadding
  cases hpadding

/-- A pair of numbers with padding between them, alone in a tuple. -/
def wrapped : Session :=
  start ⟨64, 4096⟩ .off
    |>.next (.tupleType [Builtin.int8, Builtin.int64])
    |>.next (.tupleType [tier 0])

/-- The tuple reports no padding, and its second byte belongs to no leaf. -/
theorem padding_unreported :
    Reachable wrapped ∧ ∃ d l h, wrapped.heap.types.descriptor (tier 1) = .ok d ∧ d.kind = .tuple ∧
      (Operation.layout (tier 1)).perform.runOn wrapped.heap = (.ok l, h) ∧ l.isBits = true ∧
      l.hasPadding = false ∧ 1 < l.size ∧ ¬h.registry.Covered (tier 1) 1 := by
  have hs : Reachable wrapped := ((reachable_start _ _).next _ (allows_of_none rfl)).next _ (allows_of_none rfl)
  have htuple (k : Nat) (hk : k < 2) :
      (wrapped.heap.types.descriptor (tier k)).toOption.map Descriptor.kind = some .tuple := by
    revert k
    decide +kernel
  have houter : ((Operation.layout (tier 1)).perform.runOn wrapped.heap).1 =
      .ok ⟨16, 8, [⟨"1", tier 0, 0, 16, true⟩], [], true, false⟩ := by
    decide +kernel
  have hinner : (((Operation.layout (tier 1)).perform.runOn wrapped.heap).2.registry.layouts.find? (tier 0)).map
      Layout.fields = some [⟨"1", Builtin.int8, 0, 1, true⟩, ⟨"2", Builtin.int64, 8, 8, true⟩] := by
    decide +kernel
  obtain ⟨d, hd, hkind⟩ := exists_answer (htuple 1 (by decide))
  obtain ⟨e, he, htuple⟩ := exists_answer (htuple 0 (by decide))
  obtain ⟨m, hm, hfields⟩ := Option.map_eq_some_iff.1 hinner
  rcases hrun : (Operation.layout (tier 1)).perform.runOn wrapped.heap with ⟨answer, h⟩
  rw [hrun] at houter hm
  cases houter
  refine ⟨hs, d, _, h, hd, hkind, rfl, rfl, rfl, by decide, fun hcovered => ?_⟩
  obtain ⟨memo, rfl, hmemo, hl⟩ := layout_remembered hs.sound.heap.registry hrun
  have hr : Registry.Sound { wrapped.heap.registry with layouts := memo } := ⟨hs.sound.heap.registry.types, hmemo⟩
  have hin := (hr.covered_inline_iff hl (List.mem_singleton_self _) rfl (by decide : 1 < 16)).1 hcovered
  obtain ⟨f, hf, hfill⟩ := hin.fills hr he (.inr htuple) hm
  rw [hfields] at hf
  have hgap : ∀ f ∈ [(⟨"1", Builtin.int8, 0, 1, true⟩ : FieldLayout), ⟨"2", Builtin.int64, 8, 8, true⟩],
      ¬(f.offset ≤ 1 ∧ 1 < f.offset + f.size) := by
    decide
  exact hgap f hf hfill

end Session

end TypedHeap
