import ShapeSchema.Expr.Token
import ShapeSchema.Native.Basic
import ShapeSchema.Text.Units

/-!
# Data under evaluation

A datum is a scalar, a function, or a reference to a cell of the store. Arrays and objects are
cells, so two of them are equal only if they are one cell, and what a function changes in a cell is
changed for everything that refers to it. Cells are never given up: a reference stays good.
-/

namespace ShapeSchema.Expr

open Text (Units)

/-- What has methods in common. -/
inductive Family where
  | object | array | text | number | bool | big | function | pattern
  /-- Functions that are known by name and belong to no datum. -/
  | free
deriving DecidableEq

/-- The function that a family has under a name. -/
structure Method where
  family : Family
  name : String
deriving DecidableEq

inductive Datum where
  | absent
  | null
  | bool (b : Bool)
  | number (d : Double)
  | big (n : Int)
  | text (us : Units)
  | method (m : Method)
  /-- The object that holds what a family has in common. -/
  | common (f : Family)
  | cell (ref : Nat)
deriving DecidableEq, Inhabited

/-- Keys with data, in the order in which they are listed. -/
abbrev Members := List (Units × Datum)

inductive Cell where
  | array (items : List Datum)
  | object (members : Members)
  /-- A text that counts as markup. -/
  | markup (us : Units)
  /-- A scalar that is held as an object. -/
  | boxed (scalar : Datum)
  | pattern (body flags : List Char)
  /-- The function under a key of a datum; each call looks it up again. -/
  | bound (target : Datum) (key : Units)
  /-- Items that are taken in turns, and how many turns of the current round are over. -/
  | turns (items : List Datum) (done : Nat)
  /-- The function that takes the next turn. -/
  | nextTurn (turns : Nat)
  /-- The function that starts a new round. -/
  | newRound (turns : Nat)
  /-- The function that gives the empty text once, and from then on a separator. -/
  | separator (sep : Datum) (used : Bool)
deriving Inhabited

/-- What an evaluation holds. -/
structure Store where
  cells : Array Cell
  /-- Names that blocks bind, innermost block first. -/
  frames : List Members
  /-- Names of the template as a whole. -/
  names : Members
  /-- Names that loops bind, innermost loop first. -/
  locals : List (String × Datum)
  /-- What is written so far. -/
  output : Units

/-- A step of an evaluation. -/
abbrev Run := StateT Store (Except ExprError)

/-- What a function does with the datum it is a method of and its arguments. -/
abbrev Action := Datum → List Datum → Run Datum

/-- Ends the evaluation: a value does not suit an operation. -/
def refuse {α : Type} (operation : String) : Run α := throw (.kind operation)

/-- A new cell. -/
def alloc (c : Cell) : Run Datum :=
  modifyGet fun s => (.cell s.cells.size, { s with cells := s.cells.push c })

/-- Gives a cell another content. -/
def rewrite (ref : Nat) (c : Cell) : Run Unit :=
  modify fun s => { s with cells := s.cells.set! ref c }

/-! ## Members -/

namespace Members

/-- The datum under a key. -/
def find? (ms : Members) (key : Units) : Option Datum := Entries.find? ms key

/-- The array index that a key spells. -/
def index? (key : Units) : Option Nat := Native.arrayIndex? (Text.ofUnits key)

/-- Sets a member. A known key keeps its place; of the new ones, indices go ahead of all other keys
in ascending order, and other keys to the end. -/
def put (ms : Members) (key : Units) (value : Datum) : Members :=
  if (ms.find? key).isSome then ms.map fun p => if p.1 == key then (key, value) else p
  else match index? key with
    | none => ms ++ [(key, value)]
    | some i =>
      let (before, behind) := ms.span fun p => (index? p.1).any fun j => decide (j < i)
      before ++ (key, value) :: behind

/-- The members that result from setting one after the other. -/
def ofList (ms : List (Units × Datum)) : Members := ms.foldl (fun acc p => put acc p.1 p.2) []

end Members

/-! ## Kinds -/

namespace Datum

def ofString (s : String) : Datum := .text (Text.units s)

def ofInt (n : Int) : Datum := .number (.ofInt n)

def isNothing : Datum → Bool
  | .absent | .null => true
  | _ => false

/-- Does it count as true? -/
def truthy : Datum → Bool
  | .absent | .null => false
  | .bool b => b
  | .number d => !(d.isZero || d.isNaN)
  | .big n => decide (n ≠ 0)
  | .text us => !us.isEmpty
  | .method _ | .common _ | .cell _ => true

/-- Is it no scalar? -/
def isComposite : Datum → Bool
  | .method _ | .common _ | .cell _ => true
  | _ => false

/-- Equality without conversion. -/
def same : Datum → Datum → Bool
  | .number a, .number b => a.same b
  | a, b => a == b

/-- Equality without conversion, but NaN is itself. -/
def sameKey (a b : Datum) : Bool :=
  match a, b with
  | .number x, .number y => x.same y || (x.isNaN && y.isNaN)
  | a, b => a == b

end Datum

namespace Store

/-- The cell that a datum refers to. -/
def cell? (s : Store) : Datum → Option Cell
  | .cell ref => s.cells[ref]?
  | _ => none

/-- The items of an array. -/
def items? (s : Store) (d : Datum) : Option (List Datum) :=
  match s.cell? d with
  | some (.array items) => some items
  | _ => none

/-- The units of a text, of markup and of a text that is held as an object. -/
def text? (s : Store) : Datum → Option Units
  | .text us => some us
  | d =>
    match s.cell? d with
    | some (.markup us) | some (.boxed (.text us)) => some us
    | _ => none

def isMarkup (s : Store) (d : Datum) : Bool :=
  match s.cell? d with
  | some (.markup _) => true
  | _ => false

/-- The family of a datum; nothing has none. -/
def family? (s : Store) : Datum → Option Family
  | .absent | .null => none
  | .bool _ => some .bool
  | .number _ => some .number
  | .big _ => some .big
  | .text _ => some .text
  | .method _ => some .function
  | .common f => some f
  | .cell ref =>
    match s.cells[ref]? with
    | some (.array _) => some .array
    | some (.markup _) => some .text
    | some (.boxed d) => match d with
      | .bool _ => some .bool
      | .number _ => some .number
      | .big _ => some .big
      | _ => some .text
    | some (.pattern _ _) => some .pattern
    | some (.bound _ _) | some (.nextTurn _) | some (.newRound _) | some (.separator _ _) =>
      some .function
    | _ => some .object

def isFunction (s : Store) (d : Datum) : Bool :=
  match d with
  | .common _ => false
  | d => s.family? d == some .function

/-- Is it a text, perhaps one that is held as an object? Markup is not. -/
def isText (s : Store) (d : Datum) : Bool := (s.text? d).isSome && !s.isMarkup d

/-- Is it an object with members of its own choice? Markup is one of them. -/
def isRecord (s : Store) (d : Datum) : Bool :=
  match d with
  | .common f => f == .object
  | d => s.isMarkup d || s.family? d == some .object

end Store

/-! ## Native data -/

mutual

/-- Native data as a datum. A set counts as an array, a map as an array of pairs. -/
def ofNative : Native → Run Datum
  | .null => return .null
  | .absent => return .absent
  | .bool b => return .bool b
  | .number d => return .number d
  | .big n => return .big n
  | .text s => return .ofString s
  | .builtin name => return .method ⟨.object, name⟩
  | .array items => do alloc (.array (← ofNatives items))
  | .set items => do alloc (.array (← ofNatives items))
  | .map entries => do alloc (.array (← ofEntries entries))
  | .object ms => do alloc (.object (← ofMembers ms))

def ofNatives : List Native → Run (List Datum)
  | [] => return []
  | v :: vs => do return (← ofNative v) :: (← ofNatives vs)

def ofEntries : List (Native × Native) → Run (List Datum)
  | [] => return []
  | (k, v) :: es => do
    let pair := [← ofNative k, ← ofNative v]
    return (← alloc (.array pair)) :: (← ofEntries es)

def ofMembers : List (String × Native) → Run Members
  | [] => return []
  | (k, v) :: ms => do return (Text.units k, ← ofNative v) :: (← ofMembers ms)

end

end ShapeSchema.Expr
