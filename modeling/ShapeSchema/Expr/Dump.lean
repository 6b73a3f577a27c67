import ShapeSchema.Expr.TextFilter

/-!
# Data as text for other programs

Writes a datum the way data are exchanged as text: absent items and functions are `null` in arrays
and left out of objects, numbers that are not finite are `null`, and large whole numbers, like parts
that hold themselves, have no such text. On request each part stands on a line of its own behind a
margin.
-/

namespace ShapeSchema.Expr

open Text (Units)

/-- Parts between brackets, each on its own line if there is a margin to put before it. -/
def bracketed (opening closing : Nat) (step margin : Units) (parts : List Units) : Units :=
  if parts.isEmpty then [opening, closing]
  else if step.isEmpty then [opening] ++ Text.joined [0x2C] parts ++ [closing]
  else
    let line := [0x0A] ++ margin ++ step
    [opening] ++ line ++ Text.joined ([0x2C] ++ line) parts ++ [0x0A] ++ margin ++ [closing]

/-- A key with the text of its part. -/
def keyed (step key part : Units) : Units :=
  Text.quotedUnits key ++ [0x3A] ++ (if step.isEmpty then [] else [0x20]) ++ part

/-- Text of a datum behind a margin, if it has one. -/
def Store.dump (s : Store) (step : Units) : Nat → Units → Datum → Except ExprError (Option Units)
  | _, _, .absent | _, _, .method _ => .ok none
  | _, _, .big _ => .error (.kind "dump")
  | _, _, .text us => .ok (some (Text.quotedUnits us))
  | _, _, .number d => .ok (some (Text.units (if d.isFinite then d.text else "null")))
  | _, _, .null => .ok (some (Text.units "null"))
  | _, _, .bool b => .ok (some (Text.units (if b then "true" else "false")))
  | _, _, .common _ => .ok (some (Text.units "\x7b\x7d"))
  | 0, _, .cell _ => .error (.kind "dump")
  | fuel + 1, margin, .cell ref =>
    match s.cells[ref]? with
    | some (.array items) => do
      let parts ← items.mapM fun d => do
        return (← s.dump step fuel (margin ++ step) d).getD (Text.units "null")
      return some (bracketed 0x5B 0x5D step margin parts)
    | some (.boxed d) => s.dump step fuel margin d
    | some (.object _) | some (.markup _) => do
      let parts ← (s.listed (.cell ref)).mapM fun p => do
        return (← s.dump step fuel (margin ++ step) p.2).map fun t => keyed step p.1 t
      return some (bracketed 0x7B 0x7D step margin (parts.filterMap id))
    | some (.pattern _ _) => .ok (some (Text.units "\x7b\x7d"))
    | _ => .ok none

namespace Filter

/-- What each line is moved by: a text, or a number of spaces, up to ten units. -/
def stepOf (d : Datum) : Run Units := do
  match ← receiver d with
  | .text us => return us.take 10
  | .number x => return List.replicate (min x.truncated.toNat 10) 0x20
  | _ => return []

def dump : Action := fun d args => do
  let s ← get
  return match ← s.dump (← stepOf (argument args 0)) (s.cells.size + 2) [] d with
    | some us => .text us
    | none => .absent

end Filter

end ShapeSchema.Expr
