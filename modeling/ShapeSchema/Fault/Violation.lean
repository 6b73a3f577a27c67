import ShapeSchema.Outcome.Basic
import ShapeSchema.Value.Path
import ShapeSchema.Shape.Scalar

/-!
# Violations

A promise that the caller has broken: a native value that does not match its shape, a reference to a
definition that the schema does not have, or a shape that has no dynamic form.
-/

namespace ShapeSchema

/-- The broken promise. -/
inductive Breach where
  | unknownEnum (name : String)
  | unknownClass (name : String)
  | unknownAlias (name : String)
  | noDynamicForm (ident : String)
  | notScalar (scalar : Scalar) (found : String)
  | outOfRange (scalar : Scalar) (n : Int)
  | notItems
  | notEntries
  | keyNotText
  | notObject (ident : String)
  | notInteger (ident : String)
  | beyondInt64 (n : Int)
  | notVariant (spoken ident : String)
  | keyWithoutText (found : String)
  | notIntegerShape (ident : String)
  | noFirstVariant (ident : String)
  | noDefault (ident : String)
  | custom (message : String)
deriving DecidableEq

def Breach.message : Breach → String
  | unknownEnum name => "enum " ++ name ++ " is not in the schema"
  | unknownClass name => "class " ++ name ++ " is not in the schema"
  | unknownAlias name => "type alias " ++ name ++ " is not in the schema"
  | noDynamicForm ident => ident ++ " has no dynamic representation"
  | notScalar scalar found => "expected " ++ scalar.text ++ ", got " ++ found
  | outOfRange scalar n =>
    "integer out of range (expected " ++ scalar.text ++ ", got " ++ toString n ++ ")"
  | notItems => "expected an array or set"
  | notEntries => "expected a Map or record"
  | keyNotText => "map keys must be strings"
  | notObject ident => "expected " ++ ident ++ " object"
  | notInteger ident => "expected an integer for " ++ ident
  | beyondInt64 n => toString n ++ " does not fit i64 for intRepr \"i64\""
  | notVariant spoken ident => spoken ++ " is not a variant of " ++ ident
  | keyWithoutText found => "map key of type " ++ found ++ " has no string form"
  | notIntegerShape ident => "intRepr on non-integer " ++ ident
  | noFirstVariant ident => ident ++ " has no field-free first variant to default to"
  | noDefault ident => ident ++ " has no default value"
  | custom message => message

structure Violation where
  breach : Breach
  path : Path
deriving DecidableEq

namespace Violation

def message (v : Violation) : String := v.breach.message ++ " at " ++ v.path.text

def failure (v : Violation) : Failure where
  reason := .invariantViolated
  message := v.message
  context := some [("path", .text v.path.text)]

end Violation

end ShapeSchema
