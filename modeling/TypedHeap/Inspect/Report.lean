import TypedHeap.Registry

/-!
# Reports on types

Text tables for people who want to know how types are laid out.

* `Report.builtins`: one row for each builtin type.
* `Report.layoutOf`: one row for each field of a type.
-/

namespace TypedHeap.Report

/-! ## Columns -/

/-- A text with blanks behind it, `width` characters wide or wider. -/
def left (width : Nat) (s : String) : String := String.ofList (s.toList.rightpad width ' ')

/-- A text with blanks in front of it, `width` characters wide or wider. -/
def right (width : Nat) (s : String) : String := String.ofList (s.toList.leftpad width ' ')

/-! ## Builtin types -/

/-- The properties of a type that the table of builtin types shows. -/
def traits (t : TypeRef) : Action Registry (List String) := do
  let d ← (← get).table.descriptor t
  let inline ← if d.kind = .abstract then pure false else Registry.isInline t
  return [(d.family.isAbstract, "abstract"), (d.isMutable, "mutable"),
      (d.kind.isVariableSize, "varsize"), (inline, "inline")].filterMap
    fun (holds, name) => if holds then some name else none

/-- The size and alignment of a type. Types without a layout have neither. -/
def extent (t : TypeRef) : Action Registry (String × String) := do
  match ← (Registry.layout t).attempt with
  | .ok l => return (toString l.size, toString l.alignment)
  | .error (.invalidArgument _) => return ("-", "-")
  | .error e => throw e

/-- A row of the table of builtin types. -/
def row (name size alignment traits : String) : String :=
  left 14 name ++ " " ++ right 5 size ++ " " ++ right 5 alignment ++ "  " ++ traits ++ "\n"

/-- The row of a builtin type. -/
def builtinRow (t : TypeRef) : Action Registry String := do
  let name ← (← get).table.render t
  let (size, alignment) ← extent t
  return row name size alignment (",".intercalate (← traits t))

/-- The table of builtin types: name, size, alignment and traits. -/
def builtins : Action Registry String := do
  let rows ← Builtin.all.mapM builtinRow
  return row "type" "size" "align" "flags" ++ String.join rows

/-! ## Fields of a type -/

/-- The row of a field. -/
def fieldRow (number : Nat) (f : FieldLayout) : Action Registry String := do
  let type ← (← get).table.render f.type
  return "  " ++ right 2 (toString number) ++ " " ++ left 10 f.name.text ++ " " ++ left 18 type ++
    " @" ++ left 4 (toString f.offset) ++ " " ++ right 3 (toString f.size) ++ " " ++
    (if f.isInline then "inline" else "ref") ++ "\n"

/-- The first line of a report on a layout. -/
def summary (name : String) (l : Layout) : String :=
  name ++ ": size " ++ toString l.size ++ ", align " ++ toString l.alignment ++
    (if l.isBits then ", bits" else "") ++ (if l.hasPadding then ", padded" else "") ++ "\n"

/-- The last line of a report on a layout, if there are references. -/
def pointers (l : Layout) : String :=
  if l.pointerOffsets.isEmpty then ""
  else "  pointers at " ++ ", ".intercalate (l.pointerOffsets.map toString) ++ "\n"

/-- The layout of the type with the given name and no parameters. -/
def layoutOf (name : String) : Action Registry String := do
  match (← get).table.lookup name with
  | none => throw (.undefined ("type " ++ name))
  | some t =>
    let l ← Registry.layout t
    let table := (← get).table
    let d ← table.descriptor t
    let rows ← l.fields.zipIdx.mapM fun (f, i) => fieldRow i f
    return summary (← table.render t) l ++
      "  family hash " ++ hexPadded 16 d.family.hash.toNat ++ "\n" ++ String.join rows ++ pointers l

end TypedHeap.Report
