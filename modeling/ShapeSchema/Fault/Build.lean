import ShapeSchema.Outcome.Basic
import ShapeSchema.Shape.Scalar
import ShapeSchema.Ty.Metadata

/-!
# Schema build errors

A shape that no schema can express, with the trail of fields that leads to it. Shapes other than
scalars have no number that means anything outside a run, and show a question mark instead.
-/

namespace ShapeSchema

inductive BuildKind where
  | unsupported | mapKey | constraint
deriving DecidableEq, Inhabited

namespace BuildKind

def text : BuildKind → String
  | unsupported => "unsupported"
  | mapKey => "map-key"
  | constraint => "constraint"

def code : BuildKind → DiagnosticCode
  | unsupported => .unsupportedShape
  | mapKey => .mapKey
  | constraint => .invalidConstraint

def reason : BuildKind → Reason
  | constraint => .schemaInvalid
  | _ => .schemaUnsupported

end BuildKind

/-- Forms of native types that have no schema. -/
inductive ForeignForm where
  | tuple | function | dynamic | opaqueForm
deriving DecidableEq, Inhabited

/-- What is wrong with a constraint list. -/
inductive ConstraintProblem where
  | blankExpression (level : Level) (label : Option String)
  | unlabelledCheck
  | repeatedLabel (label : String)
deriving DecidableEq

def ConstraintProblem.detail : ConstraintProblem → String
  | blankExpression level none => level.text ++ " has an empty expression"
  | blankExpression level (some label) => level.text ++ " " ++ label ++ " has an empty expression"
  | unlabelledCheck => "check constraints require a label"
  | repeatedLabel label => "duplicate check label: " ++ label

/-- Why a shape has no schema. -/
inductive BuildProblem where
  | foreign (form : ForeignForm)
  | wideInteger (scalar : Scalar)
  | mapKey (ident : String)
  | constraint (problem : ConstraintProblem)
  | tagCollision (variant field tag : String)
  | notInteger (ident : String)
deriving DecidableEq

namespace BuildProblem

def kind : BuildProblem → BuildKind
  | mapKey _ => .mapKey
  | constraint _ => .constraint
  | _ => .unsupported

def detail : BuildProblem → String
  | foreign .tuple => "tuple types have no schema representation"
  | foreign .function => "function types have no schema representation"
  | foreign .dynamic => "untyped values need a field codec"
  | foreign .opaqueForm => "opaque types have no schema representation"
  | wideInteger scalar => scalar.text ++ " does not fit a schema int; set intRepr"
  | mapKey ident => "map key " ++ ident ++ " is not a string; set mapKeyRepr"
  | constraint problem => problem.detail
  | tagCollision variant field tag =>
    "variant " ++ variant ++ " field " ++ field ++ " collides with tag field " ++ tag
  | notInteger ident => "intRepr applies to integer fields, not " ++ ident

end BuildProblem

structure BuildError where
  problem : BuildProblem
  /-- Number of a scalar shape. -/
  shapeNumber : Option Nat
  ident : String
  trail : String
deriving DecidableEq

namespace BuildError

def kind (e : BuildError) : BuildKind := e.problem.kind

def detail (e : BuildError) : String := e.problem.detail

def numberText (e : BuildError) : String := e.shapeNumber.elim "?" toString

/-- The shape's number as plain data. -/
def numberData (e : BuildError) : Native := e.shapeNumber.elim (.text "?") fun n => .ofInt n

def message (e : BuildError) : String :=
  e.detail ++ " (shape #" ++ e.numberText ++ " " ++ e.ident ++ " at " ++ e.trail ++ ")"

def failure (e : BuildError) : Failure where
  reason := e.kind.reason
  message := e.message
  context := some [("shapeId", e.numberData), ("detail", .text e.detail)]
  diagnostics := [.make e.kind.code (some [("shape", .text e.ident)]) (some e.trail)]

end BuildError

end ShapeSchema
