import ShapeSchema.Ty.Basic
import ShapeSchema.Text.Quoted

/-!
# Surface notation of types

The notation that messages show: lists as `T[]`, unions as `A | B | null`, maps as `map<K, V>`, and
a node with constraints in parentheses, its constraints after it.
-/

namespace ShapeSchema

def Literal.display : Literal → String
  | .string s => Text.quoted s
  | .int n => toString n
  | .bool b => if b then "true" else "false"

/-- The expression between doubled braces after the level and the label. -/
def Constraint.display (c : Constraint) : String :=
  let body := "\x7b\x7b" ++ c.expression ++ "\x7d\x7d"
  match c.label with
  | none => "@" ++ c.level.text ++ "(" ++ body ++ ")"
  | some l => "@" ++ c.level.text ++ "(" ++ l ++ ", " ++ body ++ ")"

def Prim.display : Prim → String
  | .media kind => kind.text
  | p => p.text

namespace Ty

variable {μ : Type} [Metadata μ]

/-- A node's notation with its constraints. -/
def annotate (body : String) (a : μ) : String :=
  match Metadata.constraints a with
  | [] => body
  | cs => "(" ++ body ++ String.join (cs.map fun c => " " ++ c.display) ++ ")"

mutual

/-- Surface notation. -/
def display : Ty μ → String
  | top a => annotate "any" a
  | prim p a => annotate p.display a
  | enumRef n _ a => annotate n a
  | classRef n _ _ a => annotate n a
  | aliasRef n _ a => annotate n a
  | literal l a => annotate l.display a
  | list i a =>
    let inner := display i
    let bare := i.isUnion && !Metadata.hasConstraints i.ann
    annotate (if bare then "(" ++ inner ++ ")[]" else inner ++ "[]") a
  | map k v a => annotate ("map<" ++ display k ++ ", " ++ display v ++ ">") a
  | tuple is a => annotate ("(" ++ ", ".intercalate (displays is) ++ ")") a
  | arrow ps r a => annotate ("(" ++ ", ".intercalate (displays ps) ++ ") -> " ++ display r) a
  | union ms none a => annotate (" | ".intercalate (displays ms)) a
  | union ms (some n) a => annotate (" | ".intercalate (displays ms ++ [annotate "null" n])) a

def displays : List (Ty μ) → List String
  | [] => []
  | t :: ts => display t :: displays ts

end

end Ty

end ShapeSchema
