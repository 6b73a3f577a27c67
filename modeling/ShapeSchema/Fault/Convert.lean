import ShapeSchema.Outcome.Basic
import ShapeSchema.Value.Path

/-!
# Conversion errors

A value that does not fit the type it is read as: where it sits, what was expected, what was found
and in which way they disagree.
-/

namespace ShapeSchema

/-- Kinds of conversion error, each with a diagnostic code of its own. -/
inductive ConvertKind where
  | typeMismatch | missingField | outOfRange | unknownVariant
deriving DecidableEq, Inhabited

namespace ConvertKind

def all : List ConvertKind := [typeMismatch, missingField, outOfRange, unknownVariant]

def reason : ConvertKind → Reason
  | typeMismatch => .typeMismatch
  | missingField => .missingField
  | outOfRange => .outOfRange
  | unknownVariant => .unknownVariant

def text (k : ConvertKind) : String := k.reason.text

def code : ConvertKind → DiagnosticCode
  | typeMismatch => .typeMismatch
  | missingField => .fieldMissing
  | outOfRange => .integerRange
  | unknownVariant => .unknownVariant

end ConvertKind

/-- In which way a value disagrees with its type. -/
inductive Mismatch where
  | wrongKind | notOneCharacter | otherLiteral
  | unknownVariant | unknownTag
  | missing | nullForRequired
  | integerRange | integerText
  | listLength | mapKey | mediaValue
  | custom (kind : ConvertKind) (detail : String)
deriving DecidableEq

namespace Mismatch

def kind : Mismatch → ConvertKind
  | unknownVariant | unknownTag => .unknownVariant
  | missing | nullForRequired => .missingField
  | integerRange => .outOfRange
  | custom kind _ => kind
  | _ => .typeMismatch

def detail : Mismatch → String
  | wrongKind => "type mismatch"
  | notOneCharacter => "type mismatch"
  | otherLiteral => "literal mismatch"
  | unknownVariant => "unknown enum variant"
  | unknownTag => "unknown variant tag"
  | missing => "missing required field"
  | nullForRequired => "null provided for required field"
  | integerRange => "integer out of range"
  | integerText => "invalid integer string"
  | listLength => "wrong list length"
  | mapKey => "invalid map key"
  | mediaValue => "unsupported media value"
  | custom _ detail => detail

end Mismatch

structure ConvertError where
  path : Path
  expected : String
  got : String
  mismatch : Mismatch
deriving DecidableEq

namespace ConvertError

/-- A required field is not there. -/
def missing (path : Path) (expected : String) : ConvertError :=
  ⟨path, expected, "<missing>", .missing⟩

/-- A required field is null. -/
def nullForRequired (path : Path) (expected : String) : ConvertError :=
  ⟨path, expected, "null", .nullForRequired⟩

def kind (e : ConvertError) : ConvertKind := e.mismatch.kind

def detail (e : ConvertError) : String := e.mismatch.detail

def message (e : ConvertError) : String :=
  e.detail ++ " (expected " ++ e.expected ++ ", got " ++ e.got ++ ") at " ++ e.path.text

def diagnostic (e : ConvertError) : Diagnostic :=
  let params := match e.kind with
    | .missingField => [("field", Native.text e.path.text)]
    | _ => [("expected", .text e.expected), ("got", .text e.got)]
  .make e.kind.code (some params) (some e.path.text)

def failure (e : ConvertError) : Failure where
  reason := e.kind.reason
  message := e.message
  context := some [("path", .text e.path.text), ("expected", .text e.expected),
    ("got", .text e.got)]
  diagnostics := [e.diagnostic]
  recoverable := true

end ConvertError

end ShapeSchema
