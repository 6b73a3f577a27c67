import ShapeSchema.Convert.Checked
import ShapeSchema.Value.Plain

/-!
# Evaluating constraints

Each constraint is evaluated on the plain view of a value. A check records its result, an assert
counts only if it fails; an expression that cannot be evaluated has failed.
-/

namespace ShapeSchema

/-- Decides an expression on plain data, or says why it cannot. -/
abbrev Evaluator := String → Native → Except String Bool

/-- The name under which an assert without a label is recorded. -/
def defaultAssertLabel : String := "assert"

/-- The name under which a constraint is recorded. -/
def Constraint.recordedName (c : Constraint) : String :=
  c.label.getD (match c.level with | .assert => defaultAssertLabel | .check => c.expression)

/-- The recorded result of a constraint. -/
def Constraint.record (c : Constraint) (passed : Bool) : Notes :=
  let r : CheckResult := ⟨c.recordedName, c.expression, passed⟩
  match c.level with
  | .check => { checks := [r] }
  | .assert => if passed then {} else { failedAsserts := [r] }

/-- Evaluates one constraint. -/
def Constraint.evaluate (c : Constraint) (eval : Evaluator) (sink : Sink) (plain : Native) :
    Checked Unit :=
  match eval c.expression plain with
  | .ok passed => .note (c.record passed)
  | .error e => do
    sink.report ⟨.warn, "constraint expression failed to evaluate: " ++ c.expression,
      some (.object [("error", .text e)])⟩
    .note (c.record false)

/-- Evaluates constraints in order. -/
def evaluateConstraints (v : Value) (cs : List Constraint) (eval : Evaluator) (sink : Sink) :
    Checked Unit :=
  let plain := v.plain
  cs.forM fun c => c.evaluate eval sink plain

/-- The warnings of failed checks. -/
def checkDiagnostics (checks : List CheckResult) : List Diagnostic :=
  (checks.filter fun c => !c.succeeded).map fun c =>
    .make .checkFailed (some [("label", .text c.name)]) none

end ShapeSchema
