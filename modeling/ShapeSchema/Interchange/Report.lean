import ShapeSchema.Interchange.Definition
import ShapeSchema.Convert.Parse
import ShapeSchema.Resolve.Cursor

/-!
# Results as exchanged

Outcomes, log lines, parsed values, resolutions and cursors. They are written only.
-/

namespace ShapeSchema.Interchange

def showNote (n : OutcomeNote) : Native :=
  .object [("path", optText n.path), ("durationMs", n.durationMs.elim .absent .number)]

/-- An outcome whose value is written by `f`. -/
def showOutcome {α : Type} (f : α → Native) : Outcome α → Native
  | .done a n => .object [("tag", .text "Done"), ("value", f a), ("meta", showNote n)]
  | .fail e n => .object [("tag", .text "Fail"), ("failure", e.toNative), ("meta", showNote n)]

def showLine (l : LogLine) : Native := .array ([.text l.channel, .text l.line] ++ l.data.toList)

/-- The lines that a logger writes of some events. -/
def showLog (l : Logger) (es : List Event) : Native := .array ((l.lines es).map showLine)

def showFlag (f : Flag) : Native :=
  .object [("kind", .text f.kind.text), ("path", .text f.path), ("detail", optText f.detail)]

def showExplanation (e : Explanation) : Native :=
  .object [("path", .text e.path), ("message", .text e.message)]

def showChecks (cs : List CheckResult) : Native := .array (cs.map CheckResult.toNative)

def showParsed (p : Parsed) : Native := .object [
  ("value", showData p.native), ("baml", showValue p.value),
  ("flags", .array (p.flags.map showFlag)),
  ("checks", showChecks p.checks), ("explanations", .array (p.explanations.map showExplanation))]

/-- A coerced value with its notes. -/
def showCoerced (v : Value) (n : Notes) : Native := .object [
  ("value", showValue v), ("checks", showChecks n.checks),
  ("failedAsserts", showChecks n.failedAsserts),
  ("flags", .array (n.flags.map showFlag)),
  ("explanations", .array (n.explanations.map showExplanation))]

/-- Types in surface notation. -/
def showDisplayed {μ : Type} [Metadata μ] (ts : List (Ty μ)) : Native := texts (ts.map Ty.display)

def showResolution : Resolution → Native
  | .resolved t => .object [("resolved", showType t), ("display", .text t.display)]
  | .ambiguous cs => .object [("ambiguous", showDisplayed cs)]

def showCursor (c : Cursor) : Native :=
  .object [("path", .text c.path.text), ("type", .text c.type.display),
    ("value", showValue c.value)]

def showContext (c : FieldContext) : Native := .object [
  ("ownerInternalName", .text c.owner), ("fieldName", .text c.field),
  ("renderedFieldName", .text c.renderedField),
  ("variantName", optText c.variant), ("renderedVariantName", optText c.renderedVariant)]

end ShapeSchema.Interchange
