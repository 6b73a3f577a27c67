import ShapeSchema.Ty.Metadata
import ShapeSchema.Value.Media

/-!
# Types

Types of dynamic values, generic in the annotation of their nodes. A union keeps its null member
apart from the other members, as an annotation only, so it never holds two nulls. Classes, enums and
recursive aliases are referred to by name.
-/

namespace ShapeSchema

/-- Is a class or alias read from complete or from partial values? -/
inductive Mode where
  | complete | partialValue
deriving DecidableEq, Inhabited

def Mode.text : Mode → String
  | .complete => "NonStreaming"
  | .partialValue => "Streaming"

inductive Prim where
  | string | int | float | bool | null
  | media (kind : MediaKind)
deriving DecidableEq, Inhabited

/-- The name of a primitive type; a media type's name tells its kind after a colon. -/
def Prim.text : Prim → String
  | .string => "string"
  | .int => "int"
  | .float => "float"
  | .bool => "bool"
  | .null => "null"
  | .media kind => "media:" ++ kind.text

inductive Literal where
  | string (s : String)
  | int (n : Int)
  | bool (b : Bool)
deriving DecidableEq, Inhabited

/-- A type whose nodes are annotated by `μ`. -/
inductive Ty (μ : Type) where
  | top (ann : μ)
  | prim (p : Prim) (ann : μ)
  | enumRef (name : String) (dynamic : Bool) (ann : μ)
  | literal (value : Literal) (ann : μ)
  | classRef (name : String) (mode : Mode) (dynamic : Bool) (ann : μ)
  | list (item : Ty μ) (ann : μ)
  | map (key value : Ty μ) (ann : μ)
  | tuple (items : List (Ty μ)) (ann : μ)
  | aliasRef (name : String) (mode : Mode) (ann : μ)
  | arrow (params : List (Ty μ)) (result : Ty μ) (ann : μ)
  | union (members : List (Ty μ)) (null : Option μ) (ann : μ)
deriving Inhabited

namespace Ty

variable {μ ν : Type}

/-- The annotation of the root. -/
def ann : Ty μ → μ
  | top a | prim _ a | enumRef _ _ a | literal _ a | classRef _ _ _ a | list _ a | map _ _ a
  | tuple _ a
  | aliasRef _ _ a | arrow _ _ a | union _ _ a => a

/-- The type with another annotation at its root. -/
def withAnn (t : Ty μ) (a : μ) : Ty μ :=
  match t with
  | top _ => top a
  | prim p _ => prim p a
  | enumRef n d _ => enumRef n d a
  | literal l _ => literal l a
  | classRef n m d _ => classRef n m d a
  | list i _ => list i a
  | map k v _ => map k v a
  | tuple is _ => tuple is a
  | aliasRef n m _ => aliasRef n m a
  | arrow ps r _ => arrow ps r a
  | union ms n _ => union ms n a

/-- The name of a type's form. -/
def form : Ty μ → String
  | top _ => "Top"
  | prim _ _ => "Primitive"
  | enumRef _ _ _ => "Enum"
  | literal _ _ => "Literal"
  | classRef _ _ _ _ => "Class"
  | list _ _ => "List"
  | map _ _ _ => "Map"
  | tuple _ _ => "Tuple"
  | aliasRef _ _ _ => "RecursiveTypeAlias"
  | arrow _ _ _ => "Arrow"
  | union _ _ _ => "Union"

/-! ## Null and unions -/

/-- The annotation of the null type. -/
def nullAnn? : Ty μ → Option μ
  | prim .null a => some a
  | _ => none

def isNull (t : Ty μ) : Bool := t.nullAnn?.isSome

def isUnion : Ty μ → Bool
  | union _ _ _ => true
  | _ => false

/-- The null type as a list of at most one member. -/
def nullMember (null : Option μ) : List (Ty μ) := null.toList.map (prim .null)

/-- The members of a union, its null last. -/
def allMembers (members : List (Ty μ)) (null : Option μ) : List (Ty μ) := members ++ nullMember null

/-- The union of some types: their nulls become one null member, annotated like the first of them.
-/
def unionOf (types : List (Ty μ)) (a : μ) : Ty μ :=
  union (types.filter fun t => !t.isNull) (types.findSome? nullAnn?) a

/-- The type or null. A union gains a null member and keeps its annotation, any other type is
wrapped; `a` annotates what is new. -/
def optionalOf (t : Ty μ) (a : μ) : Ty μ :=
  match t with
  | prim .null b => prim .null b
  | union ms (some n) b => union ms (some n) b
  | union ms none b => union ms (some a) b
  | t => union [t] (some a) a

def isOptional : Ty μ → Bool
  | prim .null _ => true
  | union _ null _ => null.isSome
  | _ => false

/-- How many members a union has besides null, and whether null is one. -/
inductive UnionView (μ : Type) where
  | null
  | optional (inner : Ty μ)
  | single (inner : Ty μ)
  | oneOf (members : List (Ty μ))
  | oneOfOptional (members : List (Ty μ))

def UnionView.of (members : List (Ty μ)) (null : Option μ) : UnionView μ :=
  match members with
  | [] => .null
  | [t] => if null.isSome then .optional t else .single t
  | ts => if null.isSome then .oneOfOptional ts else .oneOf ts

/-! ## Annotating types -/

/-- An authored type that allows null. -/
def optional (t : Ty Authored) : Ty Authored := optionalOf t {}

/-- Appends constraints to a type's own. -/
def withConstraints [Metadata μ] (t : Ty μ) (cs : List Constraint) : Ty μ :=
  if cs.isEmpty then t
  else t.withAnn (Metadata.withConstraints t.ann (Metadata.constraints t.ann ++ cs))

/-- Sets streaming flags of a type. -/
def withStreaming (t : Ty Authored) (change : FlagChange) : Ty Authored :=
  t.withAnn { t.ann with flags := change.apply t.ann.flags }

end Ty

end ShapeSchema
