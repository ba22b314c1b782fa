import Mathlib.Data.List.Nodup
import TypedHeap.Node.Schema
import TypedHeap.Proofs.Types.Operations

/-!
# Registered node types

Registering the node types declares the thirteen kinds, or finds them with the shape that they are declared
with. From then on each kind has a type of its own.

* `NodeTypes.Registered`: what the node types of a type table are.
* `NodeTypes.register_meets`: how they come about.

Main results: `Registered.ofKind_injective`, `Registered.kindOf?_eq_some`.
-/

namespace TypedHeap

open TypedHeap.Action (Meets)
open TypeTable

theorem NodeKind.mem_all (k : NodeKind) : k ∈ all := by
  cases k <;> decide

/-- Kinds have different names. -/
theorem NodeKind.typeName_injective : Function.Injective typeName := by
  have hnames : (all.map typeName).Nodup := by decide
  exact fun j k h => List.inj_on_of_nodup_map hnames j.mem_all k.mem_all h

namespace NodeTypes

variable {ts : NodeTypes} {tt tt' : TypeTable} {t : TypeRef} {k : NodeKind}

/-- The node types, and the types of the vectors in their fields, were declared in a type table. -/
structure Registered (ts : NodeTypes) (tt : TypeTable) : Prop where
  anyVector : tt.Applied Builtin.arrayFamily [.type Builtin.any, .int (Int64.ofNat 1)] ts.anyVector
  int32Vector : tt.Applied Builtin.arrayFamily [.type Builtin.int32, .int (Int64.ofNat 1)] ts.int32Vector
  node : ∀ k, tt.Applied (k.declaration ts.anyVector ts.int32Vector).family [] (ts.ofKind k)

/-- Registering them, or finding them registered. -/
theorem register_meets (hs : tt.Sound) :
    Meets Path register tt fun ts tt' => ts.Registered tt' := by
  -- One definition, and what is registered behind it.
  have next {α : Type} {tt : TypeTable} (hs : tt.Sound) (d : Declaration) {g : TypeRef → Action TypeTable α}
      {Q : TypeRef → α → TypeTable → Prop} (h : ∀ t tt', Sound tt' → Meets Path (g t) tt' (Q t)) :
      Meets Path (define d >>= g) tt fun a tt' => ∃ t, tt'.Applied d.family [] t ∧ Q t a tt' := by
    refine Meets.bind (define_meets hs d) fun t tt' hpath ht => ?_
    refine (h t tt' (hpath.sound hs)).mono fun a tt'' hpath' ha => ?_
    exact ⟨t, ht.extends hpath'.extends, ha⟩
  unfold register
  refine Meets.bind (arrayType_meets hs _ _) fun anyVector tt₁ h₁ hany => ?_
  have hs₁ := h₁.sound hs
  refine Meets.bind (arrayType_meets hs₁ _ _) fun int32Vector tt₂ h₂ hint32 => ?_
  have hs₂ := h₂.sound hs₁
  refine Meets.mono (next hs₂ _ fun goto _ h => next h _ fun line _ h => next h _ fun quote _ h =>
    next h _ fun slot _ h => next h _ fun typedSlot _ h => next h _ fun global _ h =>
    next h _ fun phi _ h => next h _ fun phic _ h => next h _ fun upsilon _ h => next h _ fun pi _ h =>
    next h _ fun newvar _ h => next h _ fun ssa _ h => next h _ fun expr tt _ =>
    Meets.pure (Q := fun ts _ => ts = NodeTypes.mk goto line quote slot typedSlot global phi phic upsilon pi
      newvar ssa expr anyVector int32Vector) rfl) ?_
  rintro ts tt' hpath ⟨_, hgoto, _, hline, _, hquote, _, hslot, _, htypedSlot, _, hglobal, _, hphi, _, hphic,
    _, hupsilon, _, hpi, _, hnewvar, _, hssa, _, hexpr, rfl⟩
  refine ⟨(hany.extends h₂.extends).extends hpath.extends, hint32.extends hpath.extends, fun k => ?_⟩
  cases k <;> assumption

theorem Registered.extends (h : ts.Registered tt) (hext : tt.Extends tt') : ts.Registered tt' where
  anyVector := h.anyVector.extends hext
  int32Vector := h.int32Vector.extends hext
  node k := (h.node k).extends hext

theorem ofKind_of_kindOf? (hk : ts.kindOf? t = some k) : ts.ofKind k = t := by
  have hfound : (ts.ofKind k == t) = true := List.find?_some (p := fun k => ts.ofKind k == t) hk
  exact beq_iff_eq.1 hfound

namespace Registered

/-- The descriptor of nodes of a kind. -/
theorem descriptor (h : ts.Registered tt) (k : NodeKind) : ∃ d, tt.descriptor (ts.ofKind k) = .ok d ∧
    d.family = (k.declaration ts.anyVector ts.int32Vector).family ∧ d.params = [] :=
  (h.node k).stands

theorem ofKind_injective (h : ts.Registered tt) : Function.Injective ts.ofKind := by
  intro j k heq
  obtain ⟨d, hd, hj, -⟩ := h.descriptor j
  obtain ⟨e, he, hk, -⟩ := h.descriptor k
  rw [heq, he] at hd
  cases hd
  exact NodeKind.typeName_injective (congrArg Family.name (hj.symm.trans hk))

/-- A type is that of a kind exactly if it was registered for the kind. -/
theorem kindOf?_eq_some (h : ts.Registered tt) : ts.kindOf? t = some k ↔ ts.ofKind k = t := by
  refine ⟨ofKind_of_kindOf?, ?_⟩
  rintro rfl
  have hfound : (ts.kindOf? (ts.ofKind k)).isSome :=
    List.find?_isSome.2 ⟨k, k.mem_all, beq_self_eq_true _⟩
  obtain ⟨j, hj⟩ := Option.isSome_iff_exists.1 hfound
  rw [hj, h.ofKind_injective (ofKind_of_kindOf? hj)]

end Registered

end NodeTypes

end TypedHeap
