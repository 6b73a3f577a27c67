import ShapeSchema.Decimal.Places
import ShapeSchema.Expr.Datum
import ShapeSchema.Text.Search

/-!
# Scalars that stand for data

Operators work on scalars. A text, markup or scalar that is held as an object stands for itself, and
anything else for its text: an array is its items joined by commas, nothing and an array inside
itself being empty, and an object shows its kind only. An object with a member `toString` has no
text.
-/

namespace ShapeSchema.Expr

open Text (Units)

/-- How a function that is a method calls itself. -/
def Method.title (m : Method) : String :=
  if m.name ≠ "constructor" then m.name
  else match m.family with
    | .object => "Object"
    | .array => "Array"
    | .text => "String"
    | .number => "Number"
    | .bool => "Boolean"
    | .big => "BigInt"
    | .pattern => "RegExp"
    | .function | .free => "Function"

/-- Text of a function. -/
def functionText (title : String) : Units :=
  Text.units ("function " ++ title ++ "() \x7b [native code] \x7d")

namespace Store

/-- Text of a datum; `seen` holds the arrays around it. -/
def sayWithin (s : Store) : Nat → List Nat → Datum → Except ExprError Units
  | _, _, .absent => .ok (Text.units "undefined")
  | _, _, .null => .ok (Text.units "null")
  | _, _, .bool b => .ok (Text.units (if b then "true" else "false"))
  | _, _, .number d => .ok (Text.units d.text)
  | _, _, .big n => .ok (Text.units (toString n))
  | _, _, .text us => .ok us
  | _, _, .method m => .ok (functionText m.title)
  | _, _, .common _ => .ok (Text.units "[object Object]")
  | 0, _, .cell _ => .error (.kind "text")
  | fuel + 1, seen, .cell ref =>
    match s.cells[ref]? with
    | some (.array items) =>
      if seen.contains ref then .ok []
      else do
        let ts ← items.mapM fun d =>
          if d.isNothing then .ok [] else s.sayWithin fuel (ref :: seen) d
        return Text.joined (Text.units ",") ts
    | some (.markup us) => .ok us
    | some (.boxed d) => s.sayWithin fuel seen d
    | some (.object ms) =>
      if (ms.find? (Text.units "toString")).isSome then .error (.kind "text")
      else .ok (Text.units "[object Object]")
    | some (.pattern body flags) =>
      .ok (Text.units (String.ofList ('/' :: body ++ '/' :: flags)))
    | _ => .ok (functionText "")

/-- Text of a datum. The arrays around a part are distinct, so there are no more than cells. -/
def say (s : Store) (d : Datum) : Except ExprError Units := s.sayWithin (s.cells.size + 2) [] d

/-- The scalar that stands for a datum. -/
def scalar (s : Store) (d : Datum) : Except ExprError Datum :=
  match s.cell? d with
  | some (.boxed x) => .ok x
  | _ => if d.isComposite then (s.say d).map .text else .ok d

end Store

/-- An operand of arithmetic: a number, or a whole number of its own kind. -/
inductive Quantity where
  | number (d : Double)
  | big (n : Int)

namespace Quantity

def toDatum : Quantity → Datum
  | number d => .number d
  | big n => .big n

/-- The quantity of a scalar: a number is read from text, truth values and nothing. -/
def ofScalar : Datum → Quantity
  | .null => number .zero
  | .bool b => number (.ofInt (if b then 1 else 0))
  | .number d => number d
  | .big n => big n
  | .text us => number (.ofText (Text.ofUnits us))
  | _ => number .nan

/-- A quantity that has to be a number. -/
def number? : Quantity → Except ExprError Double
  | number d => .ok d
  | big _ => .error (.kind "number")

end Quantity

namespace Datum

def say (d : Datum) : Run Units := do (← get).say d

def scalar (d : Datum) : Run Datum := do (← get).scalar d

def quantity (d : Datum) : Run Quantity := do return .ofScalar (← d.scalar)

def toNumber (d : Datum) : Run Double := do (← d.quantity).number?

/-- A datum as a whole number, cut towards zero; what is no number is zero. -/
def whole (d : Datum) : Run Int := do return (← d.toNumber).truncated

/-- A whole number, or the given one for an absent datum. -/
def wholeOr (d : Datum) (default : Int) : Run Int :=
  if d = .absent then return default else d.whole

/-- Text of a datum, or the given one for an absent datum. -/
def sayOr (d : Datum) (default : Units) : Run Units :=
  if d = .absent then return default else d.say

end Datum

/-- How often something is repeated whose count is a number. -/
def repeatCount (d : Double) : Run Nat := do
  match d.ceil.toInt? with
  | some n => if 0xfffff < n then refuse "count" else return n.toNat
  | none => if d.isNaN || d.negative then return 0 else refuse "count"

/-- The argument at a place; one that is not given is absent. -/
def argument (args : List Datum) (i : Nat) : Datum := args.getD i .absent

end ShapeSchema.Expr
