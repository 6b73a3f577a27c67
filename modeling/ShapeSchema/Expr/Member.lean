import ShapeSchema.Expr.Method

/-!
# Members and calls

Under a key a datum has what is its own, else a method of its family, else one of those that every
datum has. A look-up makes a function of each method it finds, bound to the datum, so no two
look-ups give the same function.
-/

namespace ShapeSchema.Expr

open Text (Units)

/-- The caller of places where nothing is called. -/
def noCaller : Caller := fun _ _ _ => refuse "call"

/-- What a family offers under a name. -/
def Family.find? (f : Family) (call : Caller) (name : String) : Option Action :=
  Entries.find? (f.methods call) name

/-- The method that data of a family have under a name. -/
def Family.method? (f : Family) (name : String) : Option Method :=
  if (f.find? noCaller name).isSome then some ⟨f, name⟩
  else if (Family.object.find? noCaller name).isSome then some ⟨.object, name⟩
  else none

namespace Store

/-- The part under a key; nothing has no parts. -/
def part (s : Store) (d : Datum) (key : Units) : Datum :=
  match s.own? d key, s.family? d with
  | some x, _ => x
  | none, none => .absent
  | none, some f =>
    let name := Text.ofUnits key
    match f.method? name with
    | some m => .method m
    | none => if name = "__proto__" then .common f else .absent

/-- Is there something under a key? -/
def offers (s : Store) (d : Datum) (key : Units) : Bool :=
  (s.own? d key).isSome || s.part d key != .absent

end Store

namespace Datum

def part (d : Datum) (key : Units) : Run Datum := do return (← get).part d key

/-- The part under a key of something that has to be there. -/
def demand (d key : Datum) : Run Datum := do
  if d.isNothing then refuse "member" else d.part (← key.say)

/-- The part under a key; nothing has no parts, and a function is bound to where it was found. -/
def lookup (d key : Datum) : Run Datum := do
  if d.isNothing then return .absent
  else
    let key ← key.say
    let x ← d.part key
    if (← get).isFunction x then alloc (.bound d key) else return x

/-- Is something an item of an array, a stretch of a text or a key of an object? -/
def isIn (item whole : Datum) : Run Bool := do
  let s ← get
  match s.items? whole with
  | some items => return items.any item.same
  | none =>
    if s.isRecord whole then return s.offers whole (← item.say)
    else match s.text? whole with
      | some us => return (Text.indexOf? (← item.say) us).isSome
      | none => refuse "in"

end Datum

/-- Calls a function with a receiver and arguments; functions may call others up to a depth. -/
def callWithin : Nat → Caller
  | 0, _, _, _ => refuse "depth"
  | fuel + 1, f, d, args => do
    match f with
    | .method m =>
      match m.family.find? (callWithin fuel) m.name with
      | some act => act d args
      | none => refuse "call"
    | .cell ref =>
      match (← get).cells[ref]? with
      | some (.bound target key) => callWithin fuel (← target.part key) target args
      | some (.nextTurn turns) =>
        match (← get).cells[turns]? with
        | some (.turns items done) =>
          let i := if done < items.length then done else 0
          rewrite turns (.turns items (i + 1))
          settle d (items.getD i .absent)
        | _ => refuse "call"
      | some (.newRound turns) =>
        match (← get).cells[turns]? with
        | some (.turns items _) =>
          rewrite turns (.turns items 0)
          let _ ← settle d .null
          return .absent
        | _ => refuse "call"
      | some (.separator sep used) =>
        rewrite ref (.separator sep true)
        return if used then sep else .text []
      | _ => refuse "call"
    | _ => refuse "call"
where
  /-- Keeps an item as the current one. -/
  settle (d item : Datum) : Run Datum := do
    match d, (← get).cell? d with
    | .cell ref, some (.object ms) =>
      rewrite ref (.object (ms.put (Text.units "current") item))
      return item
    | _, _ => return item

/-- How deep functions may call one another. -/
def callDepth : Nat := 1000

/-- Calls a function with a receiver and arguments. -/
def call : Caller := callWithin callDepth

/-- The object that functions act on which are called by their names. -/
def surroundings : Datum := .cell 0

end ShapeSchema.Expr
