import ShapeSchema.Native.Basic

/-!
# Annotations of types

Every node of a type carries an annotation: its constraints and, while a type describes streaming,
flags that say how partial values are treated. There are three kinds: `Authored` as a schema's
author writes it, `Streamed` once the flag `needed` has been worked into the type, and `Settled`
without flags.
-/

namespace ShapeSchema

/-- A check is recorded, an assert fails the whole parse. -/
inductive Level where
  | check | assert
deriving DecidableEq, Inhabited

def Level.text : Level → String
  | .check => "check"
  | .assert => "assert"

/-- A Boolean expression over the annotated value. -/
structure Constraint where
  level : Level
  label : Option String := none
  expression : String
deriving DecidableEq

/-- How partial values are treated, as authored. -/
structure StreamFlags where
  needed : Bool := false
  done : Bool := false
  state : Bool := false
deriving DecidableEq, Inhabited

/-- Streaming flags to set; those not given stay as they are. -/
structure FlagChange where
  needed : Option Bool := none
  done : Option Bool := none
  state : Option Bool := none
deriving DecidableEq, Inhabited

def FlagChange.apply (c : FlagChange) (f : StreamFlags) : StreamFlags :=
  ⟨c.needed.getD f.needed, c.done.getD f.done, c.state.getD f.state⟩

/-- Metadata of an authored type. -/
structure Authored where
  constraints : List Constraint := []
  flags : StreamFlags := {}
deriving DecidableEq, Inhabited

/-- Metadata of a streaming type. -/
structure Streamed where
  constraints : List Constraint := []
  done : Bool := false
  state : Bool := false
deriving DecidableEq, Inhabited

/-- Metadata of a type whose values are always complete. -/
structure Settled where
  constraints : List Constraint := []
deriving DecidableEq, Inhabited

/-- A constraint as plain data. -/
def Constraint.toNative (c : Constraint) : Native :=
  .object ([("level", .text c.level.text)] ++ (c.label.map fun l => ("label", Native.text l)).toList
    ++ [("expression", .text c.expression)])

def constraintsToNative (cs : List Constraint) : Native := .array (cs.map Constraint.toNative)

/-- What every kind of annotation offers. -/
class Metadata (μ : Type) where
  /-- The constraints of a node. -/
  constraints : μ → List Constraint
  /-- The annotation with other constraints. -/
  withConstraints : μ → List Constraint → μ
  /-- Does a consumer want the completion state of the value? -/
  state : μ → Bool
  /-- The annotation as plain data. -/
  toNative : μ → Native

namespace Metadata

variable {μ : Type} [Metadata μ]

def hasChecks (a : μ) : Bool := (constraints a).any fun c => c.level == .check

def hasConstraints (a : μ) : Bool := !(constraints a).isEmpty

end Metadata

instance : Metadata Authored where
  constraints := Authored.constraints
  withConstraints a cs := { a with constraints := cs }
  state a := a.flags.state
  toNative a := .object [
    ("constraints", constraintsToNative a.constraints),
    ("streamingBehavior", .object [("needed", .bool a.flags.needed), ("done", .bool a.flags.done),
      ("state", .bool a.flags.state)])]

instance : Metadata Streamed where
  constraints := Streamed.constraints
  withConstraints a cs := { a with constraints := cs }
  state := Streamed.state
  toNative a := .object [
    ("constraints", constraintsToNative a.constraints),
    ("streamingBehavior", .object [("done", .bool a.done), ("state", .bool a.state)])]

instance : Metadata Settled where
  constraints := Settled.constraints
  withConstraints a cs := { a with constraints := cs }
  state _ := false
  toNative a := .object [("constraints", constraintsToNative a.constraints)]

end ShapeSchema
