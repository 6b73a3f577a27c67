import ShapeSchema.Ty.Basic
import ShapeSchema.Outcome.Basic

/-!
# Reading mode

The mode in which a value of a type is read when its surroundings ask for partial values. Classes
and aliases keep the mode of their reference, leaves are always complete, and a stateful member that
lies two or more unions deep forces the partial mode.
-/

namespace ShapeSchema

/-- The first failure, else the partial mode if one of the outcomes has it, else the complete mode:
whichever of the two comes first decides. -/
def mergeModes (outcomes : List (Outcome Mode)) : Outcome Mode :=
  let decides : Outcome Mode → Bool
    | .fail _ _ => true
    | .done m _ => m == .partialValue
  (outcomes.find? decides).getD (.ok .complete)

namespace Ty

variable {μ : Type} [Metadata μ]

mutual

/-- Reading mode in partial surroundings, `depth` unions below the root. -/
def partialMode (depth : Int) : Ty μ → Outcome Mode
  | classRef _ m _ a => if 1 < depth && Metadata.state a then .ok .partialValue else .ok m
  | aliasRef _ m a => if 1 < depth && Metadata.state a then .ok .partialValue else .ok m
  | list i a => if 1 < depth && Metadata.state a then .ok .partialValue else partialMode depth i
  | map k v a =>
    if 1 < depth && Metadata.state a then .ok .partialValue
    else mergeModes [partialMode depth k, partialMode depth v]
  | tuple is a =>
    if 1 < depth && Metadata.state a then .ok .partialValue else mergeModes (partialModes depth is)
  | union ms _ a =>
    if 1 < depth && Metadata.state a then .ok .partialValue
    else mergeModes (partialModes (depth + 1) ms)
  | t => if 1 < depth && Metadata.state t.ann then .ok .partialValue else .ok .complete

def partialModes (depth : Int) : List (Ty μ) → List (Outcome Mode)
  | [] => []
  | t :: ts => partialMode depth t :: partialModes depth ts

end

/-- The mode in which a value is read when its surroundings have the given mode. -/
def readingMode (t : Ty μ) (mode : Mode) (depth : Int) : Outcome Mode :=
  match mode with
  | .complete => .ok .complete
  | .partialValue => t.partialMode depth

end Ty

end ShapeSchema
