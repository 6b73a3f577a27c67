import ShapeSchema.Fault.Convert
import ShapeSchema.Fault.Violation
import ShapeSchema.Fault.Build
import ShapeSchema.Ty.Display

/-!
# Faults

Everything that can end a run without a result. `Fault.message?` is its text and `Fault.failure?`
its report, for those that have one.
-/

namespace ShapeSchema

/-- The recorded result of a constraint. -/
structure CheckResult where
  name : String
  expression : String
  succeeded : Bool
deriving DecidableEq

def CheckResult.status (c : CheckResult) : String := if c.succeeded then "succeeded" else "failed"

def CheckResult.toNative (c : CheckResult) : Native := .object [
  ("name", .text c.name), ("expression", .text c.expression), ("status", .text c.status)]

/-- What is wrong with a configuration or its file. -/
inductive ConfigError where
  | fileNotFound (path : String)
  | unknownFormat (extension : String)
  | notAnObject (path : String)
  | malformed
  | invalid (errors : List String)

def ConfigError.message? : ConfigError → Option String
  | fileNotFound path => some ("Config file not found: " ++ path)
  | unknownFormat extension => some ("Unsupported config file format: " ++ extension)
  | notAnObject path => some ("Config file must contain an object: " ++ path)
  | malformed => none
  | invalid errors => some ("invalid configuration: " ++ "; ".intercalate errors)

/-- What ends a run. -/
inductive Fault where
  | convert (e : ConvertError)
  | violation (v : Violation)
  | build (e : BuildError)
  | asserts (failed : List CheckResult)
  | ambiguous (candidates : List (Ty Authored)) (path : Path)
  | config (e : ConfigError)
  /-- A message from a codec or a log sink. -/
  | raised (message : String)
  /-- A value without a text in a place that needs one. -/
  | unspeakable
  /-- References that lead on without end. -/
  | endless

namespace Fault

def assertsMessage (failed : List CheckResult) : String :=
  "assertions failed: "
    ++ ", ".intercalate (failed.map fun c => c.name ++ " (" ++ c.expression ++ ")")

def ambiguousMessage (candidates : List (Ty Authored)) (path : Path) : String :=
  let shown := " | ".intercalate (candidates.map Ty.display)
  "ambiguous union at " ++ path.text ++ ": " ++ (if shown = "" then "no candidates" else shown)

def message? : Fault → Option String
  | convert e => some e.message
  | violation v => some v.message
  | build e => some e.message
  | asserts failed => some (assertsMessage failed)
  | ambiguous candidates path => some (ambiguousMessage candidates path)
  | config e => e.message?
  | raised message => some message
  | unspeakable => none
  | endless => none

def assertsFailure (failed : List CheckResult) : Failure where
  reason := .assertFailed
  message := assertsMessage failed
  context := some [("failed", .array (failed.map CheckResult.toNative))]
  diagnostics := failed.map fun c => .make .assertFailed (some [("label", .text c.name)]) none

def ambiguousFailure (candidates : List (Ty Authored)) (path : Path) : Failure where
  reason := .ambiguousUnion
  message := ambiguousMessage candidates path
  diagnostics := [.make .ambiguousUnion
    (some [("candidates", .text (", ".intercalate (candidates.map Ty.display)))]) (some path.text)]

def failure? : Fault → Option Failure
  | convert e => some e.failure
  | violation v => some v.failure
  | build e => some e.failure
  | asserts failed => some (assertsFailure failed)
  | ambiguous candidates path => some (ambiguousFailure candidates path)
  | _ => none

end Fault

end ShapeSchema
