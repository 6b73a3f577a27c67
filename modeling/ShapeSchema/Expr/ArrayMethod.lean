import ShapeSchema.Expr.Operator
import ShapeSchema.Expr.TextMethod

/-!
# Methods of arrays

Some methods look at an array, some change its cell, and some call a function for each item, with
the item, its index and the array itself. How a function is called is left open here: `Caller` is
that step.
-/

namespace ShapeSchema.Expr

open Text (Units)

/-- How a function is called with a receiver and arguments. -/
abbrev Caller := Datum → Datum → List Datum → Run Datum

/-- What a method does with an array: its cell, its items and the arguments. -/
abbrev ArrayAction := Nat → List Datum → List Datum → Run Datum

/-- A new array. -/
def newArray (items : List Datum) : Run Datum := alloc (.array items)

/-- Texts of items with a separator between them, nothing being empty. -/
def joinItems (sep : Units) (items : List Datum) : Run Units := do
  return Text.joined sep (← items.mapM fun d => if d.isNothing then return [] else d.say)

/-- Inserts an item into a sorted list behind the items that do not come after it. -/
def insertBy (after : Datum → Datum → Run Bool) (d : Datum) : List Datum → Run (List Datum)
  | [] => return [d]
  | e :: es => do if ← after e d then return d :: e :: es else return e :: (← insertBy after d es)

/-- Sorts items; of two items of which none comes after the other the first stays first, and absent
items come last. -/
def sortBy (after : Datum → Datum → Run Bool) (items : List Datum) : Run (List Datum) := do
  let (present, missing) := items.partition (· ≠ .absent)
  return (← present.foldlM (fun sorted d => insertBy after d sorted) []) ++ missing

/-- Does the text of an item come after that of another? -/
def saysAfter (a b : Datum) : Run Bool := do return compareUnits (← a.say) (← b.say) == .gt

/-- Items with the items of arrays among them in their place, down to a depth. -/
def flattened (s : Store) : Nat → List Datum → List Datum
  | 0, items => items
  | depth + 1, items => items.flatMap fun d =>
    match s.items? d with
    | some inner => flattened s depth inner
    | none => [d]

namespace ArrayAction

def item : ArrayAction := fun _ items args => do
  return (itemAt? items (← (argument args 0).whole)).getD .absent

def concat : ArrayAction := fun _ items args => do
  let s ← get
  newArray (items ++ args.flatMap fun d => (s.items? d).getD [d])

def includes : ArrayAction := fun _ items args => do
  let start := relative (← (argument args 1).whole) items.length
  return .bool ((items.drop start).any (argument args 0).sameKey)

def indexOf : ArrayAction := fun _ items args => do
  let start := relative (← (argument args 1).whole) items.length
  let found := (items.drop start).findIdx? (argument args 0).same
  return .ofInt (found.map (fun i => (i + start : Int)) |>.getD (-1))

def lastIndexOf : ArrayAction := fun _ items args => do
  let n ← if args.length < 2 then pure (items.length : Int) else (argument args 1).whole
  let limit : Int := if n < 0 then items.length + n else n
  let ahead := items.take (limit + 1).toNat
  return .ofInt ((ahead.reverse.findIdx? (argument args 0).same).map
    (fun i => (ahead.length : Int) - 1 - i) |>.getD (-1))

def join : ArrayAction := fun _ items args => do
  return .text (← joinItems (← (argument args 0).sayOr (Text.units ",")) items)

def slice : ArrayAction := fun _ items args => do
  let start := relative (← (argument args 0).whole) items.length
  let stop := relative (← (argument args 1).wholeOr items.length) items.length
  newArray (stretch items start stop)

/-- Where a cut starts and how many items it takes out. -/
def cut (length : Nat) (args : List Datum) : Run (Nat × Nat) := do
  let start := relative (← (argument args 0).whole) length
  match args.length with
  | 0 => return (start, 0)
  | 1 => return (start, length - start)
  | _ => return (start, clamped (← (argument args 1).whole) (length - start))

def splice : ArrayAction := fun ref items args => do
  let (start, count) ← cut items.length args
  rewrite ref (.array (items.take start ++ args.drop 2 ++ items.drop (start + count)))
  newArray (stretch items start (start + count))

def toSpliced : ArrayAction := fun _ items args => do
  let (start, count) ← cut items.length args
  newArray (items.take start ++ args.drop 2 ++ items.drop (start + count))

/-- Changes the array and answers with it. -/
def change (ref : Nat) (items : List Datum) : Run Datum := do
  rewrite ref (.array items)
  return .cell ref

def reverse : ArrayAction := fun ref items _ => change ref items.reverse

def push : ArrayAction := fun ref items args => do
  rewrite ref (.array (items ++ args))
  return .ofInt (items ++ args).length

def unshift : ArrayAction := fun ref items args => do
  rewrite ref (.array (args ++ items))
  return .ofInt (args ++ items).length

def pop : ArrayAction := fun ref items _ => do
  rewrite ref (.array items.dropLast)
  return items.getLastD .absent

def shift : ArrayAction := fun ref items _ => do
  rewrite ref (.array items.tail)
  return items.headD .absent

def flat : ArrayAction := fun _ items args => do
  newArray (flattened (← get) (← (argument args 0).wholeOr 1).toNat items)

def fill : ArrayAction := fun ref items args => do
  let start := relative (← (argument args 1).whole) items.length
  let stop := relative (← (argument args 2).wholeOr items.length) items.length
  change ref (items.take start ++ List.replicate (stop - start) (argument args 0)
    ++ items.drop (max start stop))

/-- Replaces the item at a place that has to be there. -/
def replaced : ArrayAction := fun _ items args => do
  let n ← (argument args 0).whole
  let i := if n < 0 then items.length + n else n
  if i < 0 || items.length ≤ i.toNat then refuse "with"
  else newArray (items.set i.toNat (argument args 1))

/-! ## Methods that call a function -/

/-- Calls the first argument for items with their indices. -/
def calling (call : Caller) (ref : Nat) (args : List Datum) (d : Datum) (i : Nat) : Run Datum :=
  call (argument args 0) (argument args 1) [d, .ofInt i, .cell ref]

/-- Refuses a first argument that is no function. -/
def demandFunction (args : List Datum) : Run Unit := do
  if !(← get).isFunction (argument args 0) then refuse "function"

def map (call : Caller) : ArrayAction := fun ref items args => do
  demandFunction args
  newArray (← items.zipIdx.mapM fun p => calling call ref args p.1 p.2)

def forEach (call : Caller) : ArrayAction := fun ref items args => do
  demandFunction args
  items.zipIdx.forM fun p => do let _ ← calling call ref args p.1 p.2
  return .absent

/-- The items for which a function answers with something true, with their indices. -/
def picked (call : Caller) (ref : Nat) (args : List Datum) (items : List (Datum × Nat)) :
    Run (List (Datum × Nat)) := do
  demandFunction args
  items.filterM fun p => return (← calling call ref args p.1 p.2).truthy

def filter (call : Caller) : ArrayAction := fun ref items args => do
  newArray ((← picked call ref args items.zipIdx).map (·.1))

/-- The first item for which a function answers with something true, with its index. -/
def firstPicked (call : Caller) (ref : Nat) (args : List Datum) :
    List (Datum × Nat) → Run (Option (Datum × Nat))
  | [] => return none
  | p :: ps => do
    if (← calling call ref args p.1 p.2).truthy then return some p
    else firstPicked call ref args ps

/-- Answers with what is found from the start on, or from the end on. -/
def search (answer : Option (Datum × Nat) → Datum) (back : Bool) (call : Caller) : ArrayAction :=
  fun ref items args => do
    demandFunction args
    let ps := items.zipIdx
    return answer (← firstPicked call ref args (if back then ps.reverse else ps))

def foundItem (p : Option (Datum × Nat)) : Datum := (p.map (·.1)).getD .absent

def foundIndex (p : Option (Datum × Nat)) : Datum := .ofInt ((p.map fun q => (q.2 : Int)).getD (-1))

/-- Does a function answer with something true for every item? -/
def every (call : Caller) : ArrayAction := fun ref items args => do
  demandFunction args
  let failing : Caller := fun f d xs => do return .bool !(← call f d xs).truthy
  return .bool (← firstPicked failing ref args items.zipIdx).isNone

/-- Goes through the items with a function that takes what it last answered and an item. -/
def reduce (back : Bool) (call : Caller) : ArrayAction := fun ref items args => do
  demandFunction args
  let ps := if back then items.zipIdx.reverse else items.zipIdx
  let step (acc : Datum) (p : Datum × Nat) : Run Datum :=
    call (argument args 0) .absent [acc, p.1, .ofInt p.2, .cell ref]
  match args, ps with
  | _ :: start :: _, ps => ps.foldlM step start
  | _, p :: ps => ps.foldlM step p.1
  | _, [] => refuse "reduce"

/-- The items in order: by their texts, or by the sign of what a function answers for two. -/
def sorted (call : Caller) (items args : List Datum) : Run (List Datum) := do
  if argument args 0 = .absent then sortBy saysAfter items
  else do
    demandFunction args
    sortBy (fun a b => do
      let sign ← (← call (argument args 0) .absent [a, b]).toNumber
      return sign.compare? .zero == some .gt) items

end ArrayAction

open ShapeSchema.Expr.ArrayAction in
/-- The methods of arrays by name. -/
def arrayActions (call : Caller) : List (String × ArrayAction) :=
  [("at", item), ("concat", concat), ("every", every call), ("fill", fill),
    ("filter", filter call), ("find", search foundItem false call),
    ("findIndex", search foundIndex false call), ("findLast", search foundItem true call),
    ("findLastIndex", search foundIndex true call), ("flat", flat), ("forEach", forEach call),
    ("includes", includes), ("indexOf", indexOf), ("join", join), ("lastIndexOf", lastIndexOf),
    ("map", map call), ("pop", pop), ("push", push), ("reduce", reduce false call),
    ("reduceRight", reduce true call), ("reverse", reverse), ("shift", shift), ("slice", slice),
    ("some", search (fun p => .bool p.isSome) false call),
    ("sort", fun ref items args => do change ref (← sorted call items args)),
    ("splice", splice), ("toReversed", fun _ items _ => newArray items.reverse),
    ("toSorted", fun _ items args => do newArray (← sorted call items args)),
    ("toSpliced", toSpliced), ("toString", fun ref _ _ => do return .text (← (Datum.cell ref).say)),
    ("unshift", unshift), ("with", replaced)]

/-- Names of arrays' methods that are not offered here. -/
def unofferedArrayNames : List String :=
  ["copyWithin", "entries", "flatMap", "keys", "toLocaleString", "values"]

/-- Makes a method work on the items of its receiver. -/
def ArrayAction.lift (f : ArrayAction) : Action := fun d args => do
  match d, (← get).items? d with
  | .cell ref, some items => f ref items args
  | _, _ => refuse "array"

/-- All methods of arrays. -/
def arrayMethods (call : Caller) : List (String × Action) :=
  (arrayActions call).map (fun p => (p.1, p.2.lift))
    ++ unofferedArrayNames.map fun name => (name, unoffered)

end ShapeSchema.Expr
