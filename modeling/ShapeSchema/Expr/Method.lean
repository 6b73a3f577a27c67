import ShapeSchema.Expr.ArrayMethod
import ShapeSchema.Text.Quoted

/-!
# Methods of other data

What a datum has of its own under a key, and the methods of numbers, truth values, objects and
functions. Each family has a method `constructor` that makes one of its data.
-/

namespace ShapeSchema.Expr

open Text (Units)

/-! ## Members of its own -/

/-- A unit of a text, or its length. -/
def textMember? (us : Units) (key : Units) : Option Datum :=
  if key = Text.units "length" then some (.ofInt us.length)
  else (Members.index? key).bind fun i => us[i]?.map fun u => .text [u]

/-- How many arguments a method names. -/
def Method.arity (m : Method) : Nat :=
  match m.family, m.name with
  | .free, "range" => 3
  | .free, "cycler" => 0
  | .free, _ => 1
  | .object, "toString" | .object, "valueOf" | .object, "toLocaleString" => 0
  | .object, "__defineGetter__" | .object, "__defineSetter__" => 2
  | _, _ => 1

/-- A member of a function. -/
def functionMember? (title : String) (arity : Nat) (key : Units) : Option Datum :=
  if key = Text.units "length" then some (.ofInt arity)
  else if key = Text.units "name" then some (.ofString title)
  else none

namespace Store

/-- What a datum has of its own under a key. -/
def own? (s : Store) (d : Datum) (key : Units) : Option Datum :=
  match d with
  | .text us => textMember? us key
  | .method m => functionMember? m.title m.arity key
  | d =>
    match s.cell? d with
    | some (.array items) =>
      if key = Text.units "length" then some (.ofInt items.length)
      else (Members.index? key).bind fun i => items[i]?
    | some (.object ms) => ms.find? key
    | some (.markup us) =>
      if key = Text.units "length" then some (.ofInt us.length)
      else if key = Text.units "val" then some (.text us)
      else none
    | some (.boxed (.text us)) => textMember? us key
    | some (.pattern body flags) =>
      if key = Text.units "source" then some (.ofString (String.ofList body))
      else if key = Text.units "flags" then some (.ofString (String.ofList flags))
      else if key = Text.units "lastIndex" then some (.ofInt 0)
      else none
    | some (.bound _ _) | some (.nextTurn _) | some (.newRound _) | some (.separator _ _) =>
      functionMember? "" 0 key
    | _ => none

/-- What a datum lists, with its keys. -/
def listed (s : Store) (d : Datum) : Members :=
  let indexed (ds : List Datum) : Members :=
    ds.zipIdx.map fun p => (Text.units (toString p.2), p.1)
  match d with
  | .text us => indexed (us.map fun u => .text [u])
  | d =>
    match s.cell? d with
    | some (.array items) => indexed items
    | some (.object ms) => ms
    | some (.markup us) =>
      [(Text.units "val", .text us), (Text.units "length", .ofInt us.length)]
    | some (.boxed (.text us)) => indexed (us.map fun u => .text [u])
    | _ => []

end Store

/-! ## Numbers and truth values -/

/-- The scalar that a method works on. -/
def receiver (d : Datum) : Run Datum := do
  match (← get).cell? d with
  | some (.boxed x) => return x
  | _ => return d

/-- Digits of a whole number in a base, in front of others. -/
def digitsIn (base : Nat) : Nat → Nat → List Char → List Char
  | 0, _, ds => ds
  | fuel + 1, n, ds =>
    if n = 0 then ds else digitsIn base fuel (n / base) (Text.hexDigit (n % base) :: ds)

/-- Text of a whole number in a base up to thirty-six; letters go on behind the ten digits. -/
def inBase (base : Nat) (n : Int) : String :=
  let ds := digitsIn base (n.natAbs.log2 + 1) n.natAbs []
  String.ofList (if n = 0 then ['0'] else if n < 0 then '-' :: ds else ds)

namespace Action

/-- Text in the base that the first argument tells, ten if it is absent. -/
def numberToString : Action := fun d args => do
  let x ← receiver d
  let base ← (argument args 0).wholeOr 10
  if base < 2 || 36 < base then refuse "base"
  else match x with
    | .big n => return .ofString (inBase base.toNat n)
    | .number v =>
      match v.toInt? with
      | some n => return .ofString (if base = 10 then v.text else inBase base.toNat n)
      | none => if base = 10 || !v.isFinite then return .ofString v.text else refuse "base"
    | _ => refuse "number"

/-- Text of a number with a count from `least` to a hundred, which the first argument tells. If
`strict`, a wrong count is refused for numbers that are not finite as well. -/
def numberWith (strict : Bool) (least : Int) (f : Double → Nat → String) : Action :=
  fun d args => do
    match ← receiver d with
    | .number v =>
      let n ← (argument args 0).whole
      if !strict && !v.isFinite then return .ofString v.text
      else if n < least || 100 < n then refuse "count"
      else return .ofString (f v n.toNat)
    | _ => refuse "number"

/-- Text of a number with a count of digits. -/
def toPrecision : Action := fun d args => do
  if argument args 0 = .absent then return .text (← d.say)
  else numberWith false 1 Double.precise d args

/-- Text of a number with an exponent and a count of decimal places. -/
def toExponential : Action := fun d args =>
  let places (n : Nat) : Option Nat := if argument args 0 = .absent then none else some n
  numberWith false 0 (fun v n => v.scientific (places n)) d args

/-- The scalar itself. -/
def valueOf : Action := fun d _ => receiver d

/-- The text of a datum. -/
def sayMethod : Action := fun d _ => do return .text (← d.say)

end Action

/-! ## Objects -/

/-- The kind that an object shows. -/
def Store.kindText (s : Store) (d : Datum) : String :=
  match d with
  | .absent => "Undefined"
  | .null => "Null"
  | .common _ => "Object"
  | d =>
    if s.isMarkup d then "Object"
    else match s.family? d with
      | some .array => "Array"
      | some .text => "String"
      | some .number => "Number"
      | some .bool => "Boolean"
      | some .big => "BigInt"
      | some .function => "Function"
      | some .pattern => "RegExp"
      | _ => "Object"

namespace Action

/-- Has a datum something of its own under a key? Lengths count on request only. -/
def hasOwn (withLengths : Bool) : Action := fun d args => do
  if d.isNothing then refuse "member" else
  let key ← (argument args 0).say
  let s ← get
  let isLength := key = Text.units "length" && !s.isRecord d
  return .bool ((s.own? d key).isSome && (withLengths || !isLength))

/-- A datum as an object. -/
def toObject : Action := fun _ args => do
  match argument args 0 with
  | .absent | .null => alloc (.object [])
  | d => if d.isComposite then return d else alloc (.boxed d)

end Action

open ShapeSchema.Expr.Action in
/-- The methods that all data have. -/
def objectMethods : List (String × Action) :=
  [("constructor", toObject), ("hasOwnProperty", hasOwn true),
    ("isPrototypeOf", fun _ _ => return .bool false), ("propertyIsEnumerable", hasOwn false),
    ("toLocaleString", sayMethod),
    ("toString", fun d _ => do
      return .ofString ("[object " ++ (← get).kindText d ++ "]")),
    ("valueOf", fun d _ => return d), ("__defineGetter__", unoffered),
    ("__defineSetter__", unoffered), ("__lookupGetter__", fun _ _ => return .absent),
    ("__lookupSetter__", fun _ _ => return .absent)]

/-! ## Functions -/

/-- The items of a list of arguments. -/
def argumentItems (d : Datum) : Run (List Datum) := do
  if d.isNothing then return []
  else match (← get).items? d with
    | some items => return items
    | none => if d.isComposite then return [] else refuse "arguments"

/-- The methods of functions; calling them is left open. -/
def functionMethods (call : Caller) : List (String × Action) :=
  [("apply", fun f args => do
      call f (argument args 0) (← argumentItems (argument args 1))),
    ("bind", unoffered),
    ("call", fun f args => call f (argument args 0) args.tail),
    ("constructor", unoffered), ("toString", .sayMethod)]

/-- The numbers from `start` on, `step` apart, before `stop`. -/
def rangeFrom (step stop : Datum) (up : Bool) : Nat → Datum → Run (List Datum)
  | 0, _ => refuse "range"
  | fuel + 1, d => do
    if ← d.relation (if up then .less else .greater) stop then
      return d :: (← rangeFrom step stop up fuel (← d.arithmetic .add step))
    else return []

namespace Action

/-- The whole numbers from a start, zero if only one bound is given, before a stop. -/
def range : Action := fun _ args => do
  let (start, stop, step) :=
    if argument args 1 = .absent then (Datum.ofInt 0, argument args 0, Datum.ofInt 1)
    else if (argument args 2).truthy then (argument args 0, argument args 1, argument args 2)
    else (argument args 0, argument args 1, Datum.ofInt 1)
  let up ← step.relation .greater (.ofInt 0)
  newArray (← rangeFrom step stop up 1000000 start)

/-- An object that gives the arguments in turns. -/
def cycler : Action := fun _ args => do
  match ← alloc (.turns args 0) with
  | .cell turns =>
    alloc (.object [(Text.units "current", .null), (Text.units "reset", ← alloc (.newRound turns)),
      (Text.units "next", ← alloc (.nextTurn turns))])
  | d => return d

/-- A function that gives a separator, but not the first time. -/
def joiner : Action := fun _ args => do
  let sep := argument args 0
  alloc (.separator (if sep.truthy then sep else .ofString ",") false)

end Action

open ShapeSchema.Expr.Action in
/-- The functions that every template knows by name. -/
def freeFunctions : List (String × Action) :=
  [("range", range), ("cycler", cycler), ("joiner", joiner)]

/-! ## Constructors -/

namespace Action

/-- The text of the first argument. -/
def toText : Action := fun _ args => do
  match args with
  | [] => return .text []
  | d :: _ => return .text (← d.say)

/-- The number of the first argument, rounded if it is a large whole number. -/
def toNumber : Action := fun _ args => do
  match args with
  | [] => return .ofInt 0
  | d :: _ =>
    match ← d.quantity with
    | .number x => return .number x
    | .big n => return .ofInt n

/-- The first argument as a large whole number. -/
def toBig : Action := fun _ args => do
  match ← (argument args 0).scalar with
  | .bool b => return .big (if b then 1 else 0)
  | .big n => return .big n
  | .number x =>
    match x.toInt? with
    | some n => return .big n
    | none => refuse "whole number"
  | .text us =>
    match bigOfText? (Text.ofUnits us) with
    | some n => return .big n
    | none => refuse "whole number"
  | _ => refuse "whole number"

/-- An array of the arguments; a number alone tells its length. -/
def toArray : Action := fun _ args => do
  match args with
  | [.number x] =>
    match x.toInt? with
    | some n =>
      if n < 0 || 0xfffff < n then refuse "length"
      else newArray (List.replicate n.toNat .absent)
    | none => refuse "length"
  | args => newArray args

end Action

/-! ## Families -/

open ShapeSchema.Expr.Action in
/-- The methods of a family by name. -/
def Family.methods (call : Caller) : Family → List (String × Action)
  | .object => objectMethods
  | .array => ("constructor", toArray) :: arrayMethods call
  | .text => ("constructor", toText) :: textMethods
  | .number =>
    [("constructor", toNumber), ("toExponential", toExponential),
      ("toFixed", numberWith true 0 Double.fixed), ("toLocaleString", unoffered),
      ("toPrecision", toPrecision), ("toString", numberToString), ("valueOf", valueOf)]
  | .bool =>
    [("constructor", fun _ args => return .bool (argument args 0).truthy),
      ("toString", sayMethod), ("valueOf", valueOf)]
  | .big =>
    [("constructor", toBig), ("toLocaleString", unoffered), ("toString", numberToString),
      ("valueOf", valueOf)]
  | .function => functionMethods call
  | .pattern =>
    [("compile", unoffered), ("constructor", unoffered), ("exec", unoffered), ("test", unoffered),
      ("toString", sayMethod)]
  | .free => freeFunctions

end ShapeSchema.Expr
