import TypedHeap.Layout.Memo
import TypedHeap.Types.Declare

/-!
# The registry

A `Registry` is the type table together with the layouts computed so far. Declaring and applying
change the table only, asking for a layout changes the memo only; `onTypes` and `onLayouts` say so.
-/

namespace TypedHeap

/-- The registered types and the layouts computed for them. -/
structure Registry where
  table : TypeTable
  layouts : LayoutMemo
  deriving DecidableEq

namespace Registry

/-- The registry of the builtin types, with no layout computed. -/
def fresh : Registry := ⟨TypeTable.builtin, LayoutMemo.empty⟩

variable {α : Type}

/-- Work on the type table alone. -/
def onTypes (x : Action TypeTable α) : Action Registry α :=
  Action.focus Registry.table (fun r tt => { r with table := tt }) x

/-- Work on the computed layouts alone, with the type table at hand. -/
def onLayouts (x : TypeTable → Action LayoutMemo α) : Action Registry α := do
  let r ← get
  Action.focus Registry.layouts (fun r m => { r with layouts := m }) (x r.table)

/-! ## Questions about one type -/

/-- The layout of a type. -/
def layout (t : TypeRef) : Action Registry Layout := onLayouts fun tt => Layouts.of tt t

/-- Whether values of a type are stored inside the objects and arrays that hold them. -/
def isInline (t : TypeRef) : Action Registry Bool := onLayouts fun tt => Layouts.isInline tt t

/-- The number of fields of a type. -/
def fieldCount (t : TypeRef) : Action Registry Nat := return (← layout t).fields.length

/-- The field of a type at an index. -/
def field (t : TypeRef) (i : Nat) : Action Registry FieldLayout := do
  let l ← layout t
  l.field i

/-- The index of the field of a type with a given name. -/
def fieldIndex (t : TypeRef) (name : Symbol) : Action Registry Nat := do
  let l ← layout t
  match l.fieldIndex? name with
  | some i => return i
  | none =>
    let owner := (← get).table.renderOrRef t
    throw (.undefined ("field " ++ name.text ++ " of " ++ owner))

/-- The bytes a value of a type takes. -/
def sizeOf (t : TypeRef) : Action Registry Nat := return (← layout t).size

/-- The alignment of a type. -/
def alignmentOf (t : TypeRef) : Action Registry Nat := return (← layout t).alignment

/-- The parameter of a type at an index. -/
def parameter (r : Registry) (t : TypeRef) (i : Nat) : Except Error TypeParam := do
  let d ← r.table.descriptor t
  d.params.get i

/-- Whether the objects of a type can be changed. -/
def isMutable (r : Registry) (t : TypeRef) : Except Error Bool := do
  let d ← r.table.descriptor t
  return d.isMutable

end Registry

end TypedHeap
