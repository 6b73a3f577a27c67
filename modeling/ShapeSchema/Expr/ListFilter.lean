import ShapeSchema.Decimal.Power
import ShapeSchema.Expr.Test
import ShapeSchema.Expr.TextFilter

/-!
# Filters of lists and other data

Filters that look at the parts of a value, sort them or put them together. A field is the key of
a member of each item.
-/

namespace ShapeSchema.Expr

open Text (Units)

namespace Filter

/-- What a datum has under the indices below its length. Markup has a length only. -/
def inputItems (d : Datum) : Run (List Datum) := do
  let s ← get
  if d.isNothing then refuse "items"
  else match s.items? d, s.text? d with
    | some items, _ => return items
    | none, some us => return us.map fun u => if s.isMarkup d then .absent else .text [u]
    | none, none => return []

/-- The same, but nothing has no items. -/
def itemsOrNone (d : Datum) : Run (List Datum) := do
  if d.isNothing then return [] else inputItems d

/-- The items of an array, or what each has under a field if one is given. -/
def arrayItems (d field : Datum) : Run (List Datum) := do
  if field.truthy then (← itemsOrNone d).mapM fun e => e.demand field
  else match (← get).items? d with
    | some items => return items
    | none => refuse "array"

/-! ## Arguments by name -/

/-- The arguments of a filter that names them: those not given in order are looked up among those
given by name. -/
def namedArguments (names : List String) (args : List Datum) : Run (List Datum) := do
  let s ← get
  let marked (d : Datum) : Bool := (s.own? d (Text.units "__keywords")).isSome
  match args.getLast?.filter marked with
  | none => return args.take names.length
  | some byName =>
    let given := args.dropLast
    if names.length < given.length + 1 then return args.take names.length
    else return given ++ (names.drop given.length).map fun name => s.part byName (Text.units name)

/-! ## Numbers -/

/-- The magnitude of a number. -/
def abs : Action := fun d _ => do return .number (← d.toNumber).abs

/-- Rounds a number to a count of decimal places. -/
def round : Action := fun d args => do
  let places ← (orElse (argument args 0) (.ofInt 0)).toNumber
  let factor := (Double.ofInt 10).pow places
  match ← d.arithmetic .mul (.number factor) with
  | .number x =>
    let y := if argument args 1 = .ofString "ceil" then x.ceil
      else if argument args 1 = .ofString "floor" then x.floor
      else x.rounded
    return .number (y.div factor)
  | _ => refuse "round"

/-- The whole number at the start of a text in a base, or another value. -/
def int : Action := fun d args => do
  let args ← namedArguments ["value", "default", "base"] (d :: args)
  let cs := (Text.ofUnits (← (argument args 0).say)).toList
  let base ← (argument args 2).wholeOr 10
  let base := (base + 0x80000000) % 0x100000000 - 0x80000000
  return numberOr (leadingWhole base cs) (argument args 1)

/-! ## Parts -/

/-- How many parts there are; absent for what has no size. -/
def length : Action := fun d _ => do
  let s ← get
  if d.isVoid then return .ofInt 0
  else if s.isRecord d && !s.isMarkup d then return .ofInt (s.listed d).length
  else d.part (Text.units "length")

/-- What stands under the first index. -/
def first : Action := fun d _ => d.demand (.ofInt 0)

/-- What stands under the last index. -/
def last : Action := fun d _ => do
  let count ← d.demand (.ofString "length")
  d.demand (← count.arithmetic .sub (.ofInt 1))

/-- Items of a text or an array, or the members of an object as objects. -/
def list : Action := fun d _ => do
  let s ← get
  if s.isText d then newArray (((s.text? d).getD []).map fun u => .text [u])
  else if s.isRecord d then
    newArray (← (s.listed d).mapM fun p =>
      alloc (.object [(Text.units "key", .text p.1), (Text.units "value", p.2)]))
  else if (s.items? d).isSome then return d
  else refuse "list"

/-- Texts of an array's items with a separator between them. -/
def join : Action := fun d args => do
  let items ← arrayItems d (argument args 1)
  return .text (← joinItems (← (orElse (argument args 0) (.text [])).say) items)

/-- Sum of an array's items, added to zero and then to a start. -/
def sum : Action := fun d args => do
  let items ← arrayItems d (argument args 0)
  let total ← items.foldlM (Datum.arithmetic .add) (.ofInt 0)
  let start := if argument args 1 = .absent then .ofInt 0 else argument args 1
  start.arithmetic .add total

/-- A value, or another one if it is absent, or on request if it does not count as true. -/
def default : Action := fun d args => do
  if (argument args 1).truthy then return orElse d (argument args 0)
  else return if d = .absent then argument args 0 else d

/-! ## Arrangements -/

/-- A text or the items of an array from end to start. -/
def reverse : Action := fun d _ => do
  let s ← get
  if s.isText d then return .text ((s.text? d).getD []).reverse
  else newArray (← itemsOrNone d).reverse

/-- Rows of a number of items; the last row is filled up on request. -/
def batch : Action := fun d args => do
  let items ← inputItems d
  let width ← if items.isEmpty then pure Double.zero else (argument args 0).toNumber
  let starts (i : Nat) : Bool := ((Double.ofInt i).rem width).isZero
  let put (rows : List (List Datum)) (p : Datum × Nat) : List (List Datum) :=
    match rows with
    | row :: rows => if starts p.2 then [p.1] :: row :: rows else (p.1 :: row) :: rows
    | [] => [[p.1]]
  let rows := ((items.zipIdx.foldl put []).map List.reverse).reverse
  let filling := argument args 1
  let fill (row : List Datum) : Run (List Datum) := do
    let missing ← repeatCount (width.sub (.ofInt row.length))
    return row ++ List.replicate missing filling
  let rows ← match rows.getLast? with
    | some row => if filling.truthy then pure (rows.dropLast ++ [← fill row]) else pure rows
    | none => pure rows
  newArray (← rows.mapM newArray)

/-- A number of columns of items; the shorter ones are filled up on request. -/
def columns : Action := fun d args => do
  let s ← get
  let items ← inputItems d
  let count ← (argument args 0).toNumber
  let n ← repeatCount count
  let size ← repeatCount ((Double.ofInt items.length).div count).floor
  let extra := (Double.ofInt items.length).rem count
  let isLong (i : Nat) : Bool := (Double.ofInt i).compare? extra == some .lt
  let filling := argument args 1
  let columnOf (i : Nat) : Run Datum := do
    let longBefore := ((List.range i).filter isLong).length
    let start := longBefore + i * size
    let stop := start + size + (if isLong i then 1 else 0)
    let column := stretch items start stop
    if (s.items? d).isNone then
      if filling.truthy && !isLong i then refuse "slice"
      else return .text (stretch ((s.text? d).getD []) start stop)
    else newArray (if filling.truthy && !isLong i then column ++ [filling] else column)
  if (s.items? d).isNone && (s.text? d).isNone && n != 0 then refuse "slice"
  else newArray (← (List.range n).mapM columnOf)

/-- What a datum has of its own at the end of a path of keys. -/
def ownAt (field d : Datum) : Run Datum := do
  let keys ← match field with
    | .text us => pure (Text.split [0x2E] us)
    | field => if field.truthy then pure [← field.say] else pure []
  keys.foldlM (fun d key => do
    if d.isNothing then refuse "member"
    else return ((← get).own? d key).getD .absent) d

/-- A text in another case, anything else as it is. -/
def inCase (f : Units → Units) (d : Datum) : Run Datum := do
  let s ← get
  return if s.isText d then .text (f ((s.text? d).getD [])) else d

/-- Sorts items, on request in reverse order, with regard to case, or by a field. -/
def sort : Action := fun d args => do
  let args ← namedArguments ["value", "reverse", "case_sensitive", "attribute"] (d :: args)
  let down := (argument args 1).truthy
  let field := argument args 3
  let s ← get
  let key (e : Datum) : Run Datum := if field.truthy then ownAt field e else return e
  let after (a b : Datum) : Run Bool := do
    let x ← key a
    let y ← key b
    let folds := !(argument args 2).truthy && s.isText x && s.isText y
    let x ← if folds then inCase Text.lowerUnits x else pure x
    let y ← if folds then inCase Text.lowerUnits y else pure y
    if ← x.relation .less y then return down
    else if ← x.relation .greater y then return !down
    else return false
  newArray (← sortBy after (← itemsOrNone (argument args 0)))

/-- An object of arrays: the items that have the same text under a field. -/
def groupBy : Action := fun d args => do
  let field := argument args 0
  let keyOf (p : Datum × Nat) : Run Datum := do
    if (← get).isFunction field then call field .absent [p.1, .ofInt p.2]
    else ownAt field p.1
  let put (groups : List (Units × List Datum)) (p : Datum × Nat) :
      Run (List (Units × List Datum)) := do
    let key ← (← keyOf p).say
    match Entries.find? groups key with
    | some items => return Entries.insert groups key (items ++ [p.1])
    | none =>
      if (← get).part (.common .object) key == .absent then return groups ++ [(key, [p.1])]
      else refuse "group"
  let groups ← (← inputItems d).zipIdx.foldlM put []
  alloc (.object (.ofList (← groups.mapM fun p => do return (p.1, ← newArray p.2))))

/-- The members of an object as pairs, sorted by keys or by values. -/
def sortMembers : Action := fun d args => do
  let s ← get
  let order := argument args 1
  let byValue := order == .ofString "value"
  if !s.isRecord d then refuse "object"
  else if !byValue && order ≠ .absent && order ≠ .ofString "key" then refuse "order"
  else
    let pairs ← (s.listed d).mapM fun p => newArray [.text p.1, p.2]
    let key (e : Datum) : Run Datum := do
      let x := argument (((← get).items? e).getD []) (if byValue then 1 else 0)
      if (argument args 0).truthy then return x else inCase Text.upperUnits x
    newArray (← sortBy (fun a b => do (← key a).relation .greater (← key b)) pairs)

/-- Keeps the items for which a test gives the expected answer. -/
def select (expected : Bool) : Action := fun d args => do
  let name ← (argument args 0).sayOr (Text.units "truthy")
  let name := Text.ofUnits name
  if !isTest name then throw (.unknownTest name)
  else
    let items ← inputItems d
    newArray (← items.filterM fun e => do
      return (← applyTest name [e, argument args 1]) == .bool expected)

/-- Keeps the items whose field counts as true, or does not. -/
def selectAttribute (expected : Bool) : Action := fun d args => do
  match (← get).items? d with
  | some items =>
    newArray (← items.filterM fun e => do
      return (← e.demand (argument args 0)).truthy == expected)
  | none => refuse "array"

end Filter

end ShapeSchema.Expr
