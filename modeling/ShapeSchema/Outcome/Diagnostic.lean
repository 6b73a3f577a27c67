import ShapeSchema.Native.Spoken
import ShapeSchema.Text.Template

/-!
# Diagnostics

A diagnostic is a coded message. Each code has a severity and a template, and `Diagnostic.make`
fills the template's placeholders with parameters, one after the other.
-/

namespace ShapeSchema

inductive Severity where
  | error | warning | info | hint
deriving DecidableEq, Inhabited

def Severity.text : Severity → String
  | .error => "error"
  | .warning => "warning"
  | .info => "info"
  | .hint => "hint"

structure Diagnostic where
  code : String
  severity : Severity
  message : String
  path : Option String := none
  data : Option (List (String × Native)) := none
  related : Option (List Diagnostic) := none
deriving Inhabited

mutual

/-- A diagnostic as plain data. -/
def Diagnostic.toNative : Diagnostic → Native
  | ⟨code, severity, message, path, data, related⟩ =>
    .object ([("code", .text code), ("severity", .text severity.text), ("message", .text message)]
      ++ (path.map fun p => ("path", Native.text p)).toList
      ++ (data.map fun d => ("data", Native.object d)).toList
      ++ match related with
        | none => []
        | some ds => [("related", .array (Diagnostic.toNatives ds))])

def Diagnostic.toNatives : List Diagnostic → List Native
  | [] => []
  | d :: ds => d.toNative :: Diagnostic.toNatives ds

end

/-- The known codes. -/
inductive DiagnosticCode where
  | typeMismatch | fieldMissing | integerRange | unknownVariant
  | assertFailed | checkFailed
  | ambiguousUnion
  | unsupportedShape | mapKey | invalidConstraint
deriving DecidableEq, Inhabited

namespace DiagnosticCode

def all : List DiagnosticCode :=
  [.typeMismatch, .fieldMissing, .integerRange, .unknownVariant, .assertFailed, .checkFailed,
    .ambiguousUnion, .unsupportedShape, .mapKey, .invalidConstraint]

def text : DiagnosticCode → String
  | typeMismatch => "E0100"
  | fieldMissing => "E0101"
  | integerRange => "E0102"
  | unknownVariant => "E0103"
  | assertFailed => "E0200"
  | checkFailed => "W0200"
  | ambiguousUnion => "E0300"
  | unsupportedShape => "E0400"
  | mapKey => "E0401"
  | invalidConstraint => "E0402"

def severity : DiagnosticCode → Severity
  | checkFailed => .warning
  | _ => .error

/-- The message with its placeholders in braces. -/
def template : DiagnosticCode → String
  | typeMismatch => "Type mismatch: expected \x7bexpected\x7d, got \x7bgot\x7d"
  | fieldMissing => "Required field missing: \x7bfield\x7d"
  | integerRange => "Integer out of range for \x7bexpected\x7d: \x7bgot\x7d"
  | unknownVariant => "Unknown variant \x7bgot\x7d for \x7bexpected\x7d"
  | assertFailed => "Assertion failed: \x7blabel\x7d"
  | checkFailed => "Check failed: \x7blabel\x7d"
  | ambiguousUnion => "Ambiguous union access: \x7bcandidates\x7d"
  | unsupportedShape => "Unsupported shape: \x7bshape\x7d"
  | mapKey => "Map key must be a string: \x7bshape\x7d"
  | invalidConstraint => "Invalid constraint on \x7bshape\x7d"

end DiagnosticCode

/-- The placeholder of a parameter. -/
def placeholder (key : String) : String := "\x7b" ++ key ++ "\x7d"

/-- A template filled with parameters, one after the other. -/
def fillTemplate (template : String) (params : List (String × Native)) : String :=
  params.foldl
    (fun message p => Text.fillFirst message (placeholder p.1) (p.2.spoken?.getD "")) template

/-- The diagnostic of a code; without parameters the template stands as it is. -/
def Diagnostic.make (code : DiagnosticCode) (params : Option (List (String × Native)))
    (path : Option String) : Diagnostic where
  code := code.text
  severity := code.severity
  message := fillTemplate code.template (params.getD [])
  path := path
  data := params

end ShapeSchema
