import ShapeSchema.Ty.Basic
import ShapeSchema.Native.Canonical
import ShapeSchema.Digest.Sha256

/-!
# Canonical text of types

A type is compared and hashed by the canonical text of its tree, with or without the annotations.
`Ty.same` compares whole trees, `Ty.sameShape` ignores every annotation, and both may compare types
of different kinds of annotation.
-/

namespace ShapeSchema

def Literal.toNative : Literal → Native
  | .string s => .object [("kind", .text "string"), ("value", .text s)]
  | .int n => .object [("kind", .text "int"), ("value", .big n)]
  | .bool b => .object [("kind", .text "bool"), ("value", .bool b)]

namespace Ty

variable {μ ν : Type} [Metadata μ] [Metadata ν]

/-- A node as plain data: its form, its parts and its annotation. -/
def node (form : String) (parts : List (String × Native)) (a : μ) : Native :=
  .object (("tag", .text form) :: parts ++ [("meta", Metadata.toNative a)])

mutual

/-- A type as plain data. -/
def toNative : Ty μ → Native
  | top a => node "Top" [] a
  | prim p a => node "Primitive" [("value", .text p.text)] a
  | enumRef n d a => node "Enum" [("name", .text n), ("dynamic", .bool d)] a
  | literal l a => node "Literal" [("value", l.toNative)] a
  | classRef n m d a =>
    node "Class" [("name", .text n), ("mode", .text m.text), ("dynamic", .bool d)] a
  | list i a => node "List" [("item", toNative i)] a
  | map k v a => node "Map" [("key", toNative k), ("value", toNative v)] a
  | tuple is a => node "Tuple" [("items", .array (toNatives is))] a
  | aliasRef n m a => node "RecursiveTypeAlias" [("name", .text n), ("mode", .text m.text)] a
  | arrow ps r a => node "Arrow" [("params", .array (toNatives ps)), ("returns", toNative r)] a
  | union ms none a => node "Union" [("union", .object [("members", .array (toNatives ms))])] a
  | union ms (some n) a =>
    node "Union" [("union", .object [("members", .array (toNatives ms)),
      ("nullType", node "Primitive" [("value", .text Prim.null.text)] n)])] a

def toNatives : List (Ty μ) → List Native
  | [] => []
  | t :: ts => toNative t :: toNatives ts

end

/-- Canonical text of a type; `full` includes the annotations. -/
def canonical (t : Ty μ) (full : Bool) : String := t.toNative.canonical full

/-- Equality of types, annotations included. -/
def same (a : Ty μ) (b : Ty ν) : Bool := a.canonical true == b.canonical true

/-- Equality of types but for the annotations of their nodes. -/
def sameShape (a : Ty μ) (b : Ty ν) : Bool := a.canonical false == b.canonical false

/-- Hash of a type's canonical text: the first half of its SHA-256 digest. -/
def hash (t : Ty μ) (full : Bool) : String :=
  "type:sha256:" ++ Digest.shortHex (t.canonical full)

end Ty

end ShapeSchema
