import ShapeSchema.Expr.Member

/-!
# Tests

A test takes the value in front of `is` and further arguments. A name that is no test may still be
that of a function that every object has.
-/

namespace ShapeSchema.Expr

open Text (Units)

/-- What a test makes of its arguments, of which the value under test is the first. -/
abbrev Check := List Datum → Run Bool

/-- A test of the value alone. -/
def checking (f : Datum → Bool) : Check := fun args => return f (argument args 0)

/-- A test of the value that depends on what it refers to. -/
def inspecting (f : Store → Datum → Bool) : Check := fun args => return f (← get) (argument args 0)

/-- A test that asks for an order. -/
def relating (op : BinaryOp) : Check := fun args => (argument args 0).relation op (argument args 1)

/-- A test for identity with the first argument. -/
def equal : Check := fun args => return (argument args 0).same (argument args 1)

/-- Is a text its own lower or upper case? Markup is not. -/
def unchanged (f : Units → Units) : Check := fun args => do
  match (← get).text? (argument args 0) with
  | some us => return argument args 0 == .text (f us)
  | none => refuse "text"

/-- Does it have items that can be gone through? -/
def iterable : Check := fun args => do
  let s ← get
  let d := argument args 0
  if d.isNothing then refuse "iterable" else return (s.items? d).isSome || (s.text? d).isSome

/-- Is it an object, but neither array nor function? -/
def isMapping (s : Store) (d : Datum) : Bool :=
  d.isComposite && !s.isFunction d && (s.items? d).isNone

/-- The tests by name. -/
def tests : List (String × Check) :=
  [("callable", inspecting Store.isFunction), ("defined", checking (· != .absent)),
    ("divisibleby", fun args => (argument args 0).remainderIs (argument args 1) 0), ("eq", equal),
    ("equalto", equal), ("escaped", inspecting Store.isMarkup),
    ("even", fun args => (argument args 0).remainderIs (.ofInt 2) 0),
    ("falsy", checking (!·.truthy)), ("ge", relating .greaterEq),
    ("greaterthan", relating .greater), ("gt", relating .greater), ("iterable", iterable),
    ("le", relating .lessEq), ("lessthan", relating .less),
    ("lower", unchanged Text.lowerUnits), ("lt", relating .less),
    ("mapping", inspecting isMapping), ("ne", fun args => do return !(← equal args)),
    ("null", checking (· == .null)),
    ("number", checking fun d => match d with | .number _ => true | _ => false),
    ("odd", fun args => (argument args 0).remainderIs (.ofInt 2) 1), ("sameas", equal),
    ("string", checking fun d => match d with | .text _ => true | _ => false),
    ("truthy", checking Datum.truthy), ("undefined", checking (· == .absent)),
    ("upper", unchanged Text.upperUnits)]

/-- Does a name stand for a test? -/
def isTest (name : String) : Bool :=
  (Entries.find? tests name).isSome || (Entries.find? objectMethods name).isSome

/-- The value of a test. -/
def applyTest (name : String) (args : List Datum) : Run Datum := do
  match Entries.find? tests name, Entries.find? objectMethods name with
  | some check, _ => return .bool (← check args)
  | none, some act => act surroundings args
  | none, none => throw (.unknownTest name)

end ShapeSchema.Expr
