import ShapeSchema.Fault.Basic
import ShapeSchema.Log.Event

/-!
# Checked runs

A checked run gives a value with notes on how it came about, or ends in a fault; either way it
leaves the events that it reported. The notes of a run that fails are lost, its events are not.
-/

namespace ShapeSchema

inductive FlagKind where
  | optionalDefaulted | intToFloat | stringToEnum | unionMember
deriving DecidableEq

def FlagKind.text : FlagKind → String
  | .optionalDefaulted => "optional-defaulted"
  | .intToFloat => "int-to-float"
  | .stringToEnum => "string-to-enum"
  | .unionMember => "union-member"

/-- A liberty taken with a value. -/
structure Flag where
  kind : FlagKind
  path : String
  detail : Option String := none
deriving DecidableEq

/-- Why a part of a value was left out. -/
structure Explanation where
  path : String
  message : String
deriving DecidableEq

/-- What is recorded beside a value. -/
structure Notes where
  checks : List CheckResult := []
  failedAsserts : List CheckResult := []
  flags : List Flag := []
  explanations : List Explanation := []

def Notes.append (a b : Notes) : Notes :=
  ⟨a.checks ++ b.checks, a.failedAsserts ++ b.failedAsserts, a.flags ++ b.flags,
    a.explanations ++ b.explanations⟩

instance : Append Notes := ⟨Notes.append⟩

/-- A run that reports events and gives a value with notes, or fails. -/
structure Checked (α : Type) where
  events : List Event
  result : Except Fault (α × Notes)

namespace Checked

variable {α β : Type}

def pure (a : α) : Checked α := ⟨[], .ok (a, {})⟩

def bind (x : Checked α) (f : α → Checked β) : Checked β :=
  match x.result with
  | .error e => ⟨x.events, .error e⟩
  | .ok (a, notes) =>
    let y := f a
    ⟨x.events ++ y.events, y.result.map fun (b, more) => (b, notes ++ more)⟩

instance : Monad Checked where
  pure := pure
  bind := bind

def fail (e : Fault) : Checked α := ⟨[], .error e⟩

/-- Adds notes. -/
def note (notes : Notes) : Checked Unit := ⟨[], .ok ((), notes)⟩

def flag (f : Flag) : Checked Unit := note { flags := [f] }

end Checked

/-- Where events go: nothing, or the message with which an event is refused. -/
abbrev Sink := Event → Option String

/-- A sink that takes every event. -/
def Sink.quiet : Sink := fun _ => none

/-- Reports an event; a refusal ends the run. -/
def Sink.report (sink : Sink) (e : Event) : Checked Unit :=
  match sink e with
  | none => ⟨[e], .ok ((), {})⟩
  | some message => .fail (.raised message)

end ShapeSchema
