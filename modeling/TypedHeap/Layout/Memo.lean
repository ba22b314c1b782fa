import TypedHeap.Layout.Basic
import TypedHeap.Types.Table

/-!
# Computing layouts

The layout of a type is computed when it is first asked for and remembered from then on. A struct or
tuple field is stored inline when its type is immutable bits; then the layout of that type is
computed, and remembered, on the way.

* `LayoutMemo`: the layouts computed so far.
* `Layouts.within`: the layout of a type, with inline fields nested at most so deep.
* `Layouts.of`: the layout of a type.
* `Layouts.isInline`: whether values of a type are stored inside other objects.
-/

namespace TypedHeap

/-- The layouts computed so far, the newest in front. -/
structure LayoutMemo where
  entries : List (TypeRef × Layout)
  deriving DecidableEq

namespace LayoutMemo

/-- Nothing computed yet. -/
def empty : LayoutMemo := ⟨[]⟩

/-- The remembered layout of a type. -/
def find? (m : LayoutMemo) (t : TypeRef) : Option Layout := m.entries.lookup t

/-- Remember a layout. What is remembered already stays, and is the answer. -/
def publish (t : TypeRef) (l : Layout) : Action LayoutMemo Layout := do
  match (← get).find? t with
  | some first => return first
  | none =>
    modify fun m => ⟨(t, l) :: m.entries⟩
    return l

end LayoutMemo

/-- Types whose values are stored inline if they hold no references. -/
def Descriptor.mayBeInline (d : Descriptor) : Bool :=
  !d.isMutable &&
    match d.kind with
    | .primitive .. | .struct | .tuple => true
    | .abstract | .union | .string | .simpleVector | .array | .buffer => false

/-- The type that a field declaration means for an instance. -/
def Descriptor.resolve (d : Descriptor) : FieldSpec → Except Error TypeRef
  | .type t => .ok t
  | .param i => do
    match (← d.params.get i).type? with
    | some t => return t
    | none => throw (.invalidArgument
        (d.name.text ++ ": parameter " ++ toString i ++ " is not a type"))

namespace Layouts

/-- Inline fields nested deeper than this are taken for a type that contains itself. -/
def maxDepth : Nat := 64

/-! ## Fields -/

/-- The fields of a struct with their types. -/
def structFields (d : Descriptor) : Except Error (List (Symbol × TypeRef)) :=
  d.family.fields.mapM fun (name, spec) => return (name, ← d.resolve spec)

/-- The fields of a tuple, numbered from `k + 1` on, with their types. -/
def tupleFieldsFrom (k : Nat) : Params → Except Error (List (Symbol × TypeRef))
  | [] => .ok []
  | p :: ps => do
    match p.type? with
    | some t =>
      let rest ← tupleFieldsFrom (k + 1) ps
      return (⟨toString (k + 1)⟩, t) :: rest
    | none => throw (.invalidArgument "Tuple parameters must be types")

/-- The slot of a field: inline for immutable bits, a reference for everything else. -/
def slot (tt : TypeTable) (layoutOf : TypeRef → Action LayoutMemo Layout) (name : Symbol)
    (t : TypeRef) : Action LayoutMemo Slot := do
  let d ← tt.descriptor t
  if d.mayBeInline then
    let l ← layoutOf t
    if l.isBits then return ⟨name, t, l.size, l.alignment, true⟩
  return Slot.reference name t

/-- A layout in the making with one more field, laid out by `layoutOf`. -/
def extend (tt : TypeTable) (layoutOf : TypeRef → Action LayoutMemo Layout) (draft : Draft)
    (field : Symbol × TypeRef) : Action LayoutMemo Draft := do
  draft.add (← slot tt layoutOf field.1 field.2)

/-- The layout of a product, its fields laid out by `layoutOf`. -/
def product (tt : TypeTable) (layoutOf : TypeRef → Action LayoutMemo Layout) (isMutable : Bool)
    (fields : List (Symbol × TypeRef)) : Action LayoutMemo Layout := do
  let draft ← fields.foldlM (extend tt layoutOf) Draft.empty
  draft.finish isMutable

/-- The layout of arrays of some rank: data and owner words are references. -/
def array (d : Descriptor) : Except Error Layout := do
  match (← d.params.get 1).int? with
  | some ndims =>
    let owner := ownerOffset ndims.toNat
    return Layout.handle (owner + refSize) refSize [0, owner]
  | none => throw (.invalidArgument "array rank must be an integer")

/-! ## Layouts -/

/-- The layout of a descriptor, its inline fields laid out by `layoutOf`. -/
def compute (tt : TypeTable) (layoutOf : TypeRef → Action LayoutMemo Layout) (d : Descriptor) :
    Action LayoutMemo Layout := do
  match d.kind with
  | .primitive size align => return Layout.bits size.toNat align.toNat
  | .abstract | .union =>
    throw (.invalidArgument ((← tt.render d.ref) ++ " is abstract and has no layout"))
  | .string | .simpleVector | .buffer => return Layout.handle refSize refSize []
  | .array => array d
  | .struct => product tt layoutOf d.isMutable (← structFields d)
  | .tuple => product tt layoutOf d.isMutable (← tupleFieldsFrom 0 d.params)

/-- The remembered layout of a type, or else what `fresh` computes. -/
def memoized (tt : TypeTable) (t : TypeRef) (fresh : Descriptor → Action LayoutMemo Layout) :
    Action LayoutMemo Layout := do
  let d ← tt.descriptor t
  match (← get).find? t with
  | some l => return l
  | none =>
    let l ← fresh d
    LayoutMemo.publish t l

/-- The layout of a type with at most `depth` layouts inside each other that are not remembered. -/
def within (tt : TypeTable) : Nat → TypeRef → Action LayoutMemo Layout
  | 0, t => memoized tt t fun d =>
      throw (.invalidArgument (d.name.text ++ " contains itself inline"))
  | depth + 1, t => memoized tt t (compute tt (within tt depth))

/-- The layout of a type. -/
def of (tt : TypeTable) (t : TypeRef) : Action LayoutMemo Layout := within tt (maxDepth + 1) t

/-- Whether values of a type are stored inside the objects and arrays that hold them. -/
def isInline (tt : TypeTable) (t : TypeRef) : Action LayoutMemo Bool := do
  let d ← tt.descriptor t
  if d.mayBeInline then
    return (← of tt t).isBits
  return false

end Layouts

end TypedHeap
