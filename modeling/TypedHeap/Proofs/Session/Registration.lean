import TypedHeap.Proofs.Node.Making
import TypedHeap.Proofs.Node.Registration
import TypedHeap.Proofs.Session.Boxing
import TypedHeap.Proofs.Session.Redeclaration

/-!
# Registering node types along a run

The node types may be registered whenever and as often as a caller likes. Whether that succeeds depends on what
their names stand for, and once it has, the answer stays the same and nothing more is registered.

* `Session.RegistersNodes`: when node types are registered, what they are from then on, and what a failure means.

Main result: `Session.Reachable.nodes_registered`.
-/

namespace TypedHeap

open Heap Layouts TypeTable

namespace NodeTypes.Registered

variable {ts : NodeTypes} {h : Heap}

/-- The layout of nodes of a kind, if somebody asks for it, has the fields of the kind in order. -/
theorem layout_fields (hreg : ts.Registered h.types) (hs : h.Sound) (ho : h.types.Ordered) (k : NodeKind) :
    ∃ l h', (layout (ts.ofKind k)).runOn h = (.ok l, h') ∧
      l.fields.map (fun f => (f.name, f.type)) = k.fields ts.anyVector ts.int32Vector := by
  obtain ⟨c, hc, hkind, -, hfields⟩ := hreg.exists_struct k
  have hl := laidOut_struct hs.registry.types ho hc hkind hfields (hreg.simple hs.registry.types k)
  have hanswer : ((layout (ts.ofKind k)).runOn h).1 = .ok _ := hl.answer hs.registry.types ho hs.registry.layouts
  rcases hrun : (layout (ts.ofKind k)).runOn h with ⟨e | l, h'⟩
  · rw [hrun] at hanswer
    cases hanswer
  · obtain ⟨m, -, hm, hfound⟩ := layout_remembered hs.registry hrun
    have hr : Registry.Sound { h.registry with layouts := m } := ⟨hs.registry.types, hm⟩
    exact ⟨l, h', rfl, hr.map_fields hc hkind hfields hfound⟩

end NodeTypes.Registered

namespace Session

variable {s u : Session} {ts : NodeTypes} {e : Error}

/-- Node types, whenever they are registered. -/
structure RegistersNodes (s : Session) : Prop where
  /-- With a number left for each type that is missing, they are registered exactly if no name of theirs stands for
  something else. -/
  succeeds : s.heap.types.HasRoom NodeTypes.applications →
    ∃ a v, s.answer (.arrayType Builtin.any 1) = .ok a ∧
      (s.next (.arrayType Builtin.any 1)).answer (.arrayType Builtin.int32 1) = .ok v ∧
      ((∃ ts, s.answer .registerNodes = .ok ts) ↔
        ∀ (k : NodeKind) f, s.heap.types.family? k.typeName = some f → f = (k.declaration a v).family)
  /-- From then on they are different types with the fields of their kinds, and are found without a change. -/
  registered : ∀ ts, s.answer .registerNodes = .ok ts → ∀ u, Leads (s.next .registerNodes) u →
    Function.Injective ts.ofKind ∧
    (∀ k, ∃ l h, (Operation.layout (ts.ofKind k)).perform.runOn u.heap = (.ok l, h) ∧
      l.fields.map (fun f => (f.name, f.type)) = k.fields ts.anyVector ts.int32Vector) ∧
    (Operation.arrayType Builtin.any 1).perform.runOn u.heap = (.ok ts.anyVector, u.heap) ∧
    (Operation.arrayType Builtin.int32 1).perform.runOn u.heap = (.ok ts.int32Vector, u.heap) ∧
    (Operation.registerNodes).perform.runOn u.heap = (.ok ts, u.heap)
  /-- A failure leaves what was declared and applied before as it was, and is followed by failures only. -/
  failed : ∀ e, s.answer .registerNodes = .error e →
    s.heap.types.Extends (s.next .registerNodes).heap.types ∧
    ∀ u, Leads (s.next .registerNodes) u → ∃ e', u.answer .registerNodes = .error e'

theorem types_next_registerNodes (s : Session) :
    (s.next .registerNodes).heap.types = (NodeTypes.register.runOn s.heap.types).2 := by
  rw [next_heap]
  rfl

/-- What was registered stays registered. -/
theorem Reachable.registered_later (hs : Reachable s) (hrun : s.answer .registerNodes = .ok ts)
    (hu : Leads (s.next .registerNodes) u) : ts.Registered u.heap.types := by
  have hnext : Reachable (s.next .registerNodes) := hs.next _ (allows_of_none rfl)
  have hts : ts.Registered (s.next .registerNodes).heap.types := by
    rw [types_next_registerNodes]
    exact (NodeTypes.register_meets hs.sound.heap.registry.types).answer ts hrun
  exact hts.extends (hu.grows hnext.sound).extends.types

/-- In every heap that operations lead to, the node types are registered unless something else has a name of theirs,
and once only. -/
theorem Reachable.nodes_registered (hs : Reachable s) : s.RegistersNodes where
  succeeds hroom := by
    obtain ⟨a, v, tt₁, tt₂, hany, hint32, hiff⟩ := NodeTypes.register_iff hs.sound.heap.registry.types hroom
    have hafter : (s.next (.arrayType Builtin.any 1)).heap.types = tt₁ := by
      rw [next_heap]
      exact congrArg Prod.snd hany
    refine ⟨a, v, congrArg Prod.fst hany, ?_, hiff⟩
    show ((arrayType Builtin.int32 1).runOn (s.next (.arrayType Builtin.any 1)).heap.types).1 = _
    rw [hafter, hint32]
  registered ts hrun u hu := by
    have hnext : Reachable (s.next .registerNodes) := hs.next _ (allows_of_none rfl)
    have hreach : Reachable u := hnext.leads hu
    have hreg := hs.registered_later hrun hu
    exact ⟨hreg.ofKind_injective, hreg.layout_fields hreach.sound.heap hreach.ordered,
      runOn_onTypes_same hreg.anyVector.runOn_apply, runOn_onTypes_same hreg.int32Vector.runOn_apply,
      runOn_onTypes_same (hreg.runOn_register hreach.sound.heap.registry.types)⟩
  failed e hrun := by
    have htypes : s.heap.types.Sound := hs.sound.heap.registry.types
    have hnext : Reachable (s.next .registerNodes) := hs.next _ (allows_of_none rfl)
    have hfailed : NodeTypes.register.runOn s.heap.types = (.error e, (s.next .registerNodes).heap.types) := by
      rw [types_next_registerNodes]
      exact Prod.ext hrun rfl
    constructor
    · have hkept := (NodeTypes.register_meets htypes).kept
      rw [hfailed] at hkept
      exact Path.extends hkept
    · intro u hu
      obtain ⟨e', hlater⟩ := NodeTypes.register_later htypes hfailed (hu.grows hnext.sound).types
      exact ⟨e', hlater⟩

/-- A struct that has the name of a node type and another field. -/
def misnamed : Declaration where
  name := "PiNode"
  home := "Core"
  kind := .struct
  fields := [("target", .type Builtin.int64)]

/-- The name was taken before the node types were registered. -/
def disputed : Session := start ⟨64, 4096⟩ .off |>.next (.define misnamed) |>.next .registerNodes

/-- In a new heap they are registered for good. Where the name is taken, they cannot be, although there is room, and
other types that are made later do not help. -/
theorem nodes_registered_disputed :
    (start ⟨64, 4096⟩ .off).RegistersNodes ∧
      (start ⟨64, 4096⟩ .off).answer .registerNodes = .ok nodeTypes ∧
      (Operation.registerNodes).perform.runOn main.heap = (.ok nodeTypes, main.heap) ∧
      Reachable disputed ∧ disputed.heap.types.HasRoom NodeTypes.applications ∧
      (¬∃ ts, disputed.answer .registerNodes = .ok ts) ∧
      ∃ e, ((disputed.next .registerNodes).next (.tupleType [])).answer .registerNodes = .error e := by
  have hstart : Reachable (start ⟨64, 4096⟩ .off) := reachable_start _ _
  have hnodes := hstart.nodes_registered
  have hrun : (start ⟨64, 4096⟩ .off).answer .registerNodes = .ok nodeTypes := by decide +kernel
  have hmain : Leads ((start ⟨64, 4096⟩ .off).next .registerNodes) main := Leads.refl.next _ (allows_of_none rfl)
  have hdisputed : Reachable disputed := (hstart.next _ (allows_of_none rfl)).next _ (allows_of_none rfl)
  have hroom : disputed.heap.types.HasRoom NodeTypes.applications := by
    unfold HasRoom
    decide +kernel
  have htaken : disputed.heap.types.family? NodeKind.pi.typeName = some misnamed.family := by decide +kernel
  have hrefused : ¬∃ ts, disputed.answer .registerNodes = .ok ts := by
    obtain ⟨a, v, -, -, hiff⟩ := hdisputed.nodes_registered.succeeds hroom
    rw [hiff]
    intro hnames
    have hlength : 1 = 2 := congrArg (fun f => f.fields.length) (hnames .pi _ htaken)
    cases hlength
  refine ⟨hnodes, hrun, (hnodes.registered _ hrun _ hmain).2.2.2.2, hdisputed, hroom, hrefused, ?_⟩
  rcases hanswer : disputed.answer .registerNodes with e | ts
  · exact (hdisputed.nodes_registered.failed e hanswer).2 _ (Leads.refl.next _ (allows_of_none rfl))
  · exact absurd ⟨ts, hanswer⟩ hrefused

end Session

end TypedHeap
