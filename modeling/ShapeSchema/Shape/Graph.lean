import ShapeSchema.Fault.Basic
import ShapeSchema.Schema.Registry
import ShapeSchema.Value.Basic

/-!
# Shape graphs

A shape describes a native type. Shapes refer to each other by number in one table, the graph, so
that recursive types are finite and two shapes are the same exactly if their numbers are. A number
outside the table stands for an opaque type.
-/

namespace ShapeSchema

/-- Number of a shape in its graph. -/
abbrev ShapeId := Nat

/-- How whole numbers of a field are written. -/
inductive IntRepr where
  | text | int64
deriving DecidableEq

/-- How maps of a field are written. -/
inductive KeyRepr where
  | text | pairs
deriving DecidableEq

/-- A check or an assert as declared. -/
structure Rule where
  label : Option String := none
  expression : String

/-- The name that a field, its owner and its variant have. -/
structure FieldContext where
  owner : String
  field : String
  renderedField : String
  variant : Option String := none
  renderedVariant : Option String := none

/-- A field's own type, registration and conversion. -/
structure Codec where
  type : Except Fault (Ty Authored)
  register : Option (FieldContext → Registry → Except Fault Registry)
  write : Native → Except Fault Value
  read : Value → Path → Except Fault Native

/-- What a missing field is filled with. -/
inductive FieldDefault where
  | zero
  | value (v : Native)

structure Field where
  name : String
  shape : ShapeId
  doc : List String := []
  rename : Option String := none
  /-- One more name under which the field is read. -/
  altName : Option String := none
  skip : Bool := false
  default : Option FieldDefault := none
  description : Option String := none
  codec : Option Codec := none
  intRepr : Option IntRepr := none
  keyRepr : Option KeyRepr := none
  checks : List Rule := []
  asserts : List Rule := []
deriving Inhabited

structure Variant where
  name : String
  doc : List String := []
  rename : Option String := none
  altName : Option String := none
  description : Option String := none
  fields : List Field := []
deriving Inhabited

/-- What structs and enums have in common. -/
structure Declared where
  ident : String
  module : Option String := none
  doc : List String := []
  rename : Option String := none
  internalName : Option String := none
  description : Option String := none
  checks : List Rule := []
  asserts : List Rule := []

inductive Collection where
  | array | set
  | fixed (length : Int)
deriving DecidableEq

/-- A map with keys of any kind, or a plain object with text keys. -/
inductive Keyed where
  | map | object
deriving DecidableEq

inductive PointerKind where
  | box | rc | arc
deriving DecidableEq

def PointerKind.text : PointerKind → String
  | .box => "box"
  | .rc => "rc"
  | .arc => "arc"

inductive Shape where
  | scalar (s : Scalar)
  | option (inner : ShapeId)
  | list (kind : Collection) (inner : ShapeId)
  | map (kind : Keyed) (key value : ShapeId)
  | pointer (kind : PointerKind) (inner : ShapeId)
  | struct (d : Declared) (fields : List Field)
  | enum (d : Declared) (tag : Option String) (asUnion : Bool) (variants : List Variant)
  | foreign (form : ForeignForm) (ident : String)
deriving Inhabited

/-- The shapes that a type reaches, by number. -/
structure Graph where
  shapes : Array Shape

namespace Graph

/-- The shape of a number. -/
def shape (g : Graph) (id : ShapeId) : Shape := g.shapes.getD id (.foreign .opaqueForm "")

def size (g : Graph) : Nat := g.shapes.size

end Graph

namespace Shape

/-- The type identifier that messages show. -/
def ident : Shape → String
  | scalar s => s.ident
  | option _ => "Option"
  | list .array _ => "Vec"
  | list .set _ => "Set"
  | list (.fixed n) _ => "[_; " ++ toString n ++ "]"
  | map .map _ _ => "Map"
  | map .object _ _ => "Record"
  | pointer kind _ => kind.text
  | struct d _ => d.ident
  | enum d _ _ _ => d.ident
  | foreign _ ident => ident

/-- The number of a scalar among the scalars, from one. -/
def number? : Shape → Option Nat
  | scalar s => some (Scalar.all.idxOf s + 1)
  | _ => none

end Shape

/-- Data enums have a variant with fields. -/
def isDataEnum (variants : List Variant) : Bool := variants.any fun v => !v.fields.isEmpty

namespace Field

def rendered (f : Field) : String := f.rename.getD f.name

/-- The entry under a field's real name, else its rendered name, else its other name. -/
def lookup? {α : Type} (f : Field) (es : List (String × α)) : Option α :=
  (Entries.find? es f.name).or
    ((Entries.find? es f.rendered).or (f.altName.bind (Entries.find? es)))

end Field

namespace Variant

def rendered (v : Variant) : String := v.rename.getD v.name

/-- The variant that a name means: by rendered name, else by real name, else by the other name. -/
def match? (vs : List Variant) (name : String) : Option Variant :=
  (vs.find? fun v => v.rendered == name).or
    ((vs.find? fun v => v.name == name).or (vs.find? fun v => v.altName == some name))

end Variant

namespace Declared

def rendered (d : Declared) : String := d.rename.getD d.ident

/-- The name under which a definition wants to be registered: given, or the identifier after its
module. -/
def baseName (d : Declared) : String :=
  match d.internalName, d.module.filter (· != "") with
  | some name, _ => name
  | none, some m => m ++ "::" ++ d.ident
  | none, none => d.ident

end Declared

namespace Graph

/-- The shape behind a chain of pointers; chains that do not end stand for an opaque type. -/
def behindPointers (g : Graph) : Nat → ShapeId → Shape
  | 0, _ => .foreign .opaqueForm ""
  | fuel + 1, id =>
    match g.shape id with
    | .pointer _ inner => behindPointers g fuel inner
    | s => s

/-- The shape behind all pointers. -/
def unwrap (g : Graph) (id : ShapeId) : Shape := g.behindPointers (g.size + 1) id

/-- Is the shape, behind all pointers, an option? -/
def isOption (g : Graph) (id : ShapeId) : Bool :=
  match g.unwrap id with
  | .option _ => true
  | _ => false

end Graph

end ShapeSchema
