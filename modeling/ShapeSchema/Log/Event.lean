import ShapeSchema.Native.Basic

/-!
# Log events

What a run reports besides its result. A logger shows the events at or above its level, each as a
line that starts with the event's level and the logger's scope.
-/

namespace ShapeSchema

/-- Severity of an event, and the threshold of a logger. -/
inductive LogLevel where
  | debug | info | warn | error | silent
deriving DecidableEq, Inhabited

namespace LogLevel

def all : List LogLevel := [.debug, .info, .warn, .error, .silent]

def text : LogLevel → String
  | debug => "debug"
  | info => "info"
  | warn => "warn"
  | error => "error"
  | silent => "silent"

def ofText? (s : String) : Option LogLevel := all.find? fun l => l.text == s

def rank : LogLevel → Nat
  | debug => 0
  | info => 1
  | warn => 2
  | error => 3
  | silent => 4

end LogLevel

structure Event where
  level : LogLevel
  message : String
  data : Option Native := none

/-- A logger's threshold and scope. -/
structure Logger where
  level : LogLevel := .warn
  scope : Option String := none

/-- A written event: the channel it goes to, its line and its data. -/
structure LogLine where
  channel : String
  line : String
  data : Option Native

namespace Logger

def shows (l : Logger) (e : Event) : Bool := decide (l.level.rank ≤ e.level.rank)

/-- The channel of a level. -/
def channel : LogLevel → String
  | .warn => "warn"
  | .error => "error"
  | _ => "log"

/-- An event as a line. -/
def write (l : Logger) (e : Event) : LogLine where
  channel := channel e.level
  line := match l.scope.filter (· != "") with
    | none => "[" ++ e.level.text ++ "] " ++ e.message
    | some s => "[" ++ e.level.text ++ "] [" ++ s ++ "] " ++ e.message
  data := e.data

/-- The lines of the events that a logger shows. -/
def lines (l : Logger) (es : List Event) : List LogLine := (es.filter l.shows).map l.write

end Logger

end ShapeSchema
