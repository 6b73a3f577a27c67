import ShapeSchema.Convert.Coerce
import ShapeSchema.Convert.Read

/-!
# Parsing

A dynamic value is coerced to the type of a built schema, its constraints are judged, and the result
is read as the native value of the shape. A failed assert fails the parse; failed checks are
reported.
-/

namespace ShapeSchema

/-- A parsed value with what was recorded on the way. -/
structure Parsed where
  native : Native
  value : Value
  flags : List Flag
  checks : List CheckResult
  explanations : List Explanation

/-- A shape with its built schema. -/
structure Parser where
  graph : Graph
  bundle : Bundle
  shape : ShapeId
  eval : Evaluator
  sink : Sink := .quiet

namespace Parser

def coercer (p : Parser) : Coercer := ⟨p.bundle.schema, p.eval, p.sink⟩

def converter (p : Parser) : Converter := ⟨p.graph, p.bundle.nameTable⟩

/-- Reports checks that failed, if any did. -/
def reportFailedChecks (sink : Sink) (checks : List CheckResult) : Checked Unit :=
  let failed := checks.filter fun c => !c.succeeded
  if failed.isEmpty then return ()
  else sink.report ⟨.info, toString failed.length ++ " check(s) failed",
    some (.object [("checks", .array (failed.map fun c => .text c.name))])⟩

/-- Ends in a fault if an assert failed; otherwise reports failed checks and reads the coerced
value. -/
def conclude (p : Parser) (v : Value) (notes : Notes) : Checked Parsed :=
  if !notes.failedAsserts.isEmpty then .fail (.asserts notes.failedAsserts)
  else do
    reportFailedChecks p.sink notes.checks
    match p.converter.read p.shape v .root with
    | .error e => .fail e
    | .ok n => return ⟨n, v, notes.flags, notes.checks, notes.explanations⟩

/-- Parses a value. -/
def parse (p : Parser) (input : Value) : Checked Parsed :=
  let coerced := p.coercer.run input p.bundle.schema.target .root
  match coerced.result with
  | .error e => ⟨coerced.events, .error e⟩
  | .ok (v, notes) =>
    let rest := p.conclude v notes
    ⟨coerced.events ++ rest.events, rest.result⟩

/-- Parses a value and reports the warnings that its failed checks give. -/
def parseAndWarn (p : Parser) (input : Value) : Checked Parsed := do
  let parsed ← p.parse input
  let warnings := checkDiagnostics parsed.checks
  unless warnings.isEmpty do
    p.sink.report ⟨.debug, "parsed with failed checks",
      some (.object [("warnings", .array (warnings.map Diagnostic.toNative))])⟩
  return parsed

end Parser

/-- A fault as a failed outcome: conversion errors, violations and failed asserts report themselves,
anything else is internal. -/
def Fault.outcome {α : Type} : Fault → Outcome α
  | .convert e => .fail e.failure { path := some e.path.text }
  | .violation v => .fail v.failure { path := some v.path.text }
  | .asserts failed => .fail (Fault.assertsFailure failed) {}
  | e => .fail { reason := .internalError, message := e.message?.getD "" } {}

namespace Parser

/-- Parses a value; a fault becomes a failed outcome. -/
def outcome (p : Parser) (input : Value) : List Event × Outcome Parsed :=
  let r := p.parseAndWarn input
  (r.events, match r.result with
    | .ok (parsed, _) => .ok parsed
    | .error e => e.outcome)

end Parser

end ShapeSchema
