import ShapeSchema.Outcome.Diagnostic

/-!
# Outcomes

An outcome is a value or a failure, either with a note on where and how long. A failure has a
reason, a message and the diagnostics behind it.
-/

namespace ShapeSchema

/-- Why something failed. -/
inductive Reason where
  | schemaUnsupported | schemaInvalid
  | typeMismatch | missingField | outOfRange | unknownVariant
  | assertFailed | ambiguousUnion | invariantViolated | internalError
  | custom (name : String)
deriving DecidableEq, Inhabited

def Reason.text : Reason → String
  | .schemaUnsupported => "schema-unsupported"
  | .schemaInvalid => "schema-invalid"
  | .typeMismatch => "type-mismatch"
  | .missingField => "missing-field"
  | .outOfRange => "out-of-range"
  | .unknownVariant => "unknown-variant"
  | .assertFailed => "assert-failed"
  | .ambiguousUnion => "ambiguous-union"
  | .invariantViolated => "invariant-violated"
  | .internalError => "internal-error"
  | .custom name => "custom:" ++ name

/-- The reasons that are not custom. -/
def Reason.known : List Reason :=
  [.schemaUnsupported, .schemaInvalid, .typeMismatch, .missingField, .outOfRange, .unknownVariant,
    .assertFailed, .ambiguousUnion, .invariantViolated, .internalError]

structure Failure where
  reason : Reason
  message : String
  context : Option (List (String × Native)) := none
  diagnostics : List Diagnostic := []
  recoverable : Bool := false
deriving Inhabited

/-- A failure as plain data. -/
def Failure.toNative (f : Failure) : Native :=
  .object ([("reason", .text f.reason.text), ("message", .text f.message)]
    ++ (f.context.map fun c => ("context", Native.object c)).toList
    ++ [("diagnostics", .array (f.diagnostics.map Diagnostic.toNative)),
      ("recoverable", .bool f.recoverable)])

/-- Where an outcome arose and how long it took. -/
structure OutcomeNote where
  path : Option String := none
  durationMs : Option Double := none

inductive Outcome (α : Type) where
  | done (value : α) (note : OutcomeNote)
  | fail (failure : Failure) (note : OutcomeNote)

namespace Outcome

variable {α β : Type}

/-- A value without a note. -/
def ok (value : α) : Outcome α := done value {}

def isDone : Outcome α → Bool
  | done _ _ => true
  | fail _ _ => false

/-- Goes on with the value; a failure stays as it is. -/
def andThen (o : Outcome α) (f : α → Outcome β) : Outcome β :=
  match o with
  | done a _ => f a
  | fail e note => fail e note

end Outcome

end ShapeSchema
