import TypedHeap.Symbol
import TypedHeap.Tag

/-!
# Type families, their declarations and their instances

A *family* is what all instances of one type name share: its fields, parameters, kind and place in
the hierarchy. A *descriptor* is one instance: a family with the parameters it was applied to.
A *declaration* is what a program writes down to get a new family.

* `TypeParam`, `Params`: the parameters of an instance.
* `TypeKind`: the structural category of a family.
* `Family`, `Declaration`, `Declaration.family`: families and how declarations give rise to them.
* `Family.hash`: a number for the qualified name that is the same in every run.
* `Descriptor`: one registered type.
-/

namespace TypedHeap

/-! ## Parameters -/

/-- One parameter of an instance. -/
inductive TypeParam where
  | type (t : TypeRef)
  | int (n : Int64)
  | symbol (s : Symbol)
  | bool (b : Bool)
  deriving DecidableEq

/-- The parameters of an instance, in order. -/
abbrev Params : Type := List TypeParam

namespace TypeParam

/-- The type, if the parameter is one. -/
def type? : TypeParam → Option TypeRef
  | .type t => some t
  | _ => none

/-- The integer, if the parameter is one. -/
def int? : TypeParam → Option Int
  | .int n => some n.toInt
  | _ => none

/-- How a parameter is shown with its kind. -/
def debug : TypeParam → String
  | .type t => "Type(" ++ t.debug ++ ")"
  | .int n => "Int(" ++ toString n.toInt ++ ")"
  | .symbol s => "Symbol(" ++ s.debug ++ ")"
  | .bool b => "Bool(" ++ toString b ++ ")"

end TypeParam

namespace Params

/-- The parameters that are types, in order. -/
def types (ps : Params) : List TypeRef := ps.filterMap TypeParam.type?

/-- The parameters that are given types. -/
def ofTypes (ts : List TypeRef) : Params := ts.map TypeParam.type

/-- The parameter at an index. -/
def get (ps : Params) (i : Nat) : Except Error TypeParam :=
  match ps[i]? with
  | some p => .ok p
  | none => .error (.indexOutOfRange .parameter i ps.length)

/-- The first `len` parameters; there must be that many. -/
def shorten (ps : Params) (len : Nat) : Except Error Params :=
  if len ≤ ps.length then .ok (ps.take len)
  else .error (.indexOutOfRange .parameter len ps.length)

/-- How a list of parameters is shown with their kinds. -/
def debug (ps : Params) : String := "[" ++ ", ".intercalate (ps.map TypeParam.debug) ++ "]"

/-- Types read back from a list made of them. -/
@[simp] theorem types_ofTypes (ts : List TypeRef) : types (ofTypes ts) = ts := by
  induction ts with
  | nil => rfl
  | cons t ts ih => simpa [types, ofTypes, TypeParam.type?] using ih

end Params

/-! ## Families -/

/-- The declared type of a field: a type, or the parameter of the instance at an index. -/
inductive FieldSpec where
  | type (t : TypeRef)
  | param (index : Nat)
  deriving DecidableEq

/-- The structural category of a family. -/
inductive TypeKind where
  /-- Bits of a fixed size without fields: numbers, characters, symbols. -/
  | primitive (size align : UInt64)
  /-- Named fields, declared on the family. -/
  | struct
  /-- Unnamed immutable fields; their types are the parameters. -/
  | tuple
  /-- No instances: a supertype, or the declared type of a field. -/
  | abstract
  /-- No instances: any of the parameters. -/
  | union
  /-- Bytes of text. -/
  | string
  /-- References, as many as were asked for. -/
  | simpleVector
  /-- Elements in several dimensions. -/
  | array
  /-- Bytes without a meaning of their own; they back arrays. -/
  | buffer
  deriving DecidableEq, Repr

namespace TypeKind

/-- Kinds whose objects have a length of their own. -/
def isVariableSize : TypeKind → Bool
  | .string | .simpleVector | .array | .buffer => true
  | _ => false

/-- Kinds that objects can have. -/
def isInstantiable : TypeKind → Bool
  | .abstract | .union => false
  | _ => true

end TypeKind

/-- What all instances of one type name share. -/
structure Family where
  name : Symbol
  /-- The name of the module the family was declared in. -/
  home : Symbol
  /-- The names of the parameters. -/
  params : List Symbol
  fieldNames : List Symbol
  fieldSpecs : List FieldSpec
  /-- Every field has a name and a declared type. -/
  lengths : fieldNames.length = fieldSpecs.length := by rfl
  kind : TypeKind
  isMutable : Bool
  supertype : Option TypeRef
  /-- Takes any number of parameters. -/
  variadic : Bool
  deriving DecidableEq

namespace Family

def isAbstract (f : Family) : Bool := f.kind == .abstract

/-- The fields, with their names and declared types. -/
def fields (f : Family) : List (Symbol × FieldSpec) := f.fieldNames.zip f.fieldSpecs

/-- The 64-bit FNV-1a hash of some bytes. -/
def fnv1a (bytes : List UInt8) : UInt64 :=
  bytes.foldl (fun h b => (h ^^^ b.toUInt64) * 0x00000100000001b3) 0xcbf29ce484222325

/-- The hash of the qualified name. It depends on nothing else, so it is the same in every run. -/
def hash (f : Family) : UInt64 :=
  fnv1a (f.home.text ++ "." ++ f.name.text).toUTF8.data.toList

end Family

/-! ## Declarations -/

/-- The kinds of families that programs declare. -/
inductive DeclarationKind where
  | struct
  | abstract
  | primitive (size align : UInt64)
  deriving DecidableEq, Repr

/-- The category of the family that a declaration of this kind gives. -/
def DeclarationKind.typeKind : DeclarationKind → TypeKind
  | .struct => .struct
  | .abstract => .abstract
  | .primitive size align => .primitive size align

/-- What a program writes down to get a new family. -/
structure Declaration where
  name : Symbol
  home : Symbol := "Main"
  kind : DeclarationKind
  isMutable : Bool := false
  /-- The first type of every registry is the one above all others. -/
  supertype : TypeRef := TypeRef.first
  params : List Symbol := []
  fields : List (Symbol × FieldSpec) := []
  deriving DecidableEq

/-- The family that a declaration describes. -/
def Declaration.family (d : Declaration) : Family where
  name := d.name
  home := d.home
  params := d.params
  fieldNames := d.fields.map Prod.fst
  fieldSpecs := d.fields.map Prod.snd
  lengths := by rw [List.length_map, List.length_map]
  kind := d.kind.typeKind
  isMutable := d.isMutable
  supertype := some d.supertype
  variadic := false

/-- Whether a declaration describes exactly this family: the same names, parameters, kind,
mutability and supertype, and the same fields in the same order. -/
def Family.matches (f : Family) (d : Declaration) : Bool :=
  f.name == d.name && f.home == d.home && f.kind == d.kind.typeKind && f.isMutable == d.isMutable &&
    f.variadic == false && f.supertype == some d.supertype && f.params == d.params &&
    f.fieldNames.length == d.fields.length &&
    ((f.fieldNames.zip f.fieldSpecs).zip d.fields).all fun ((name, spec), (name', spec')) =>
      name == name' && spec == spec'

/-- The fields of a family are those of its declaration. -/
@[simp] theorem Declaration.family_fields (d : Declaration) : d.family.fields = d.fields :=
  (List.zip_of_prod rfl rfl).symm

/-- Families differ if one of their parts does. -/
theorem Family.ext_of_fields {f g : Family} (hname : f.name = g.name) (hhome : f.home = g.home)
    (hparams : f.params = g.params) (hfields : f.fields = g.fields) (hkind : f.kind = g.kind)
    (hmutable : f.isMutable = g.isMutable) (hsup : f.supertype = g.supertype)
    (hvariadic : f.variadic = g.variadic) : f = g := by
  have hnames : f.fieldNames = g.fieldNames := by
    rw [← List.map_fst_zip (Nat.le_of_eq f.lengths), ← List.map_fst_zip (Nat.le_of_eq g.lengths)]
    exact congrArg (List.map Prod.fst) hfields
  have hspecs : f.fieldSpecs = g.fieldSpecs := by
    rw [← List.map_snd_zip (Nat.le_of_eq f.lengths.symm), ← List.map_snd_zip (Nat.le_of_eq g.lengths.symm)]
    exact congrArg (List.map Prod.snd) hfields
  cases f
  cases g
  simp only [Family.mk.injEq]
  exact ⟨hname, hhome, hparams, hnames, hspecs, hkind, hmutable, hsup, hvariadic⟩

/-- Two lists of the same length that agree pair by pair are equal. -/
theorem Family.all_zip_iff {ps qs : List (Symbol × FieldSpec)} (hlength : ps.length = qs.length) :
    ((ps.zip qs).all fun ((name, spec), (name', spec')) => name == name' && spec == spec') = true ↔
      ps = qs := by
  induction ps generalizing qs with
  | nil => cases qs <;> simp_all
  | cons p ps ih =>
    cases qs with
    | nil => cases hlength
    | cons q qs =>
      rw [List.zip_cons_cons, List.all_cons, Bool.and_eq_true_iff, ih (Nat.succ.inj hlength),
        Bool.and_eq_true_iff, beq_iff_eq, beq_iff_eq, List.cons.injEq, Prod.ext_iff]

/-- The comparison part by part finds out whether the family is the one that the declaration gives. -/
theorem Family.matches_iff {f : Family} {d : Declaration} : f.matches d = true ↔ f = d.family := by
  unfold Family.matches
  simp only [Bool.and_eq_true_iff, beq_iff_eq]
  constructor
  · rintro ⟨⟨⟨⟨⟨⟨⟨⟨hname, hhome⟩, hkind⟩, hmutable⟩, hvariadic⟩, hsup⟩, hparams⟩, hlength⟩, hall⟩
    have hlength' : f.fields.length = d.fields.length := by
      rw [Family.fields, List.length_zip, ← f.lengths, Nat.min_self, hlength]
    refine Family.ext_of_fields hname hhome hparams ?_ hkind hmutable hsup hvariadic
    rw [d.family_fields]
    exact (all_zip_iff hlength').1 hall
  · rintro rfl
    refine ⟨⟨⟨⟨⟨⟨⟨⟨rfl, rfl⟩, rfl⟩, rfl⟩, rfl⟩, rfl⟩, rfl⟩, List.length_map _⟩, ?_⟩
    exact (all_zip_iff (congrArg List.length d.family_fields)).2 d.family_fields

/-- Different declarations describe different families. -/
theorem Declaration.family_injective {d e : Declaration} (h : d.family = e.family) : d = e := by
  have hfields : d.fields = e.fields := by rw [← d.family_fields, ← e.family_fields, h]
  obtain ⟨n, m, k, mu, s, ps, fs⟩ := d
  obtain ⟨n', m', k', mu', s', ps', fs'⟩ := e
  cases hfields
  simp only [Declaration.family, Family.mk.injEq, Option.some.injEq, and_true, true_and] at h
  obtain ⟨rfl, rfl, rfl, hk, rfl, rfl⟩ := h
  cases k <;> cases k' <;> simp_all [DeclarationKind.typeKind]

/-! ## Instances -/

/-- One registered type: a family and the parameters it was applied to. -/
structure Descriptor where
  ref : TypeRef
  family : Family
  params : Params
  deriving DecidableEq

namespace Descriptor

def name (d : Descriptor) : Symbol := d.family.name

def kind (d : Descriptor) : TypeKind := d.family.kind

def isMutable (d : Descriptor) : Bool := d.family.isMutable

def supertype (d : Descriptor) : Option TypeRef := d.family.supertype

/-- The members of a union, or the field types of a tuple. -/
def memberTypes (d : Descriptor) : List TypeRef := Params.types d.params

/-- How a descriptor is shown. -/
def debug (d : Descriptor) : String :=
  "DataType \x7b name: " ++ d.name.debug ++ ", ref: " ++ d.ref.debug ++ ", params: " ++
    Params.debug d.params ++ " \x7d"

end Descriptor

end TypedHeap
