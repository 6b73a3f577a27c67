import ShapeSchema.Decimal.Shortest

/-!
# Native data

The plain data a program works with: scalars, arrays, sets, maps and objects. Sets and maps keep the
order in which their members arrived and hold each scalar once; an object lists the keys that are
array indices first, in ascending order, and the other keys in order of arrival.
-/

namespace ShapeSchema

/-- Plain data. `absent` is the value of a member that is not there, `null` an explicit nothing, and
`builtin` a function that every object offers. -/
inductive Native where
  | null
  | absent
  | bool (b : Bool)
  | number (d : Double)
  | big (n : Int)
  | text (s : String)
  | array (items : List Native)
  | set (items : List Native)
  | map (entries : List (Native × Native))
  | object (members : List (String × Native))
  | builtin (name : String)
deriving Inhabited

/-! ## Insertion-ordered entries -/

namespace Entries

variable {α β : Type}

/-- The value of a key. -/
def find? [BEq α] (es : List (α × β)) (key : α) : Option β :=
  (es.find? fun p => p.1 == key).map (·.2)

/-- Sets a key: a known key keeps its place, a new one goes to the end. -/
def insert [BEq α] (es : List (α × β)) (key : α) (value : β) : List (α × β) :=
  match es with
  | [] => [(key, value)]
  | p :: rest => if p.1 == key then (p.1, value) :: rest else p :: insert rest key value

/-- Entries in order of arrival: of a repeated key the first place and the last value count. -/
def ofList [BEq α] (es : List (α × β)) : List (α × β) :=
  es.foldl (fun acc p => insert acc p.1 p.2) []

end Entries

namespace Native

/-- The array index that a key spells: digits without a leading zero, below `2^32 - 1`. -/
def arrayIndex? (key : String) : Option Nat :=
  let cs := key.toList
  let digits := cs.all fun c => decide (48 ≤ c.toNat) && decide (c.toNat ≤ 57)
  if cs.isEmpty || !digits || (cs.head? == some '0' && cs.length != 1)
      || decide (10 < cs.length) then
    none
  else
    let n := cs.foldl (fun n c => n * 10 + (c.toNat - 48)) 0
    if n < 0xFFFFFFFF then some n else none

/-- Distinct keyed members in the order in which an object lists them. -/
def objectOrder {β : Type} (es : List (String × β)) : List (String × β) :=
  let indexed := es.filterMap fun p => (arrayIndex? p.1).map fun i => (i, p)
  (indexed.mergeSort fun a b => decide (a.1 ≤ b.1)).map (·.2)
    ++ es.filter fun p => (arrayIndex? p.1).isNone

/-- The object that results from setting members one after the other. -/
def record (es : List (String × Native)) : Native := .object (objectOrder (Entries.ofList es))

/-- Equality of keys: scalars by content, where NaN equals itself and the zeros are one; arrays,
sets, maps and objects are each a key of their own. -/
def sameKey : Native → Native → Bool
  | .null, .null => true
  | .absent, .absent => true
  | .bool a, .bool b => a == b
  | .number a, .number b => (a.isNaN && b.isNaN) || a.same b
  | .big a, .big b => a == b
  | .text a, .text b => a == b
  | _, _ => false

/-- A key as a set or map stores it: the negative zero becomes the positive one. -/
def storedKey : Native → Native
  | .number d => if d.isZero then .number .zero else .number d
  | v => v

/-- The set of the items, each once, in order of arrival. -/
def ofItems (items : List Native) : Native :=
  .set (items.foldl (fun acc v => if acc.any (sameKey v) then acc else acc ++ [storedKey v]) [])

/-- Sets a key of a map. -/
def putEntry (es : List (Native × Native)) (key value : Native) : List (Native × Native) :=
  match es with
  | [] => [(storedKey key, value)]
  | p :: rest => if sameKey p.1 key then (p.1, value) :: rest else p :: putEntry rest key value

/-- Entries set one after the other: of a repeated key the first place and the last value count. -/
def setEntries (es : List (Native × Native)) : List (Native × Native) :=
  es.foldl (fun acc p => putEntry acc p.1 p.2) []

/-- The map that results from setting entries one after the other. -/
def ofEntries (es : List (Native × Native)) : Native := .map (setEntries es)

/-- The members of a plain object. -/
def members? : Native → Option (List (String × Native))
  | .object ms => some ms
  | _ => none

/-- The value of an object's member, `absent` if it has none. -/
def member (ms : List (String × Native)) (key : String) : Native :=
  (Entries.find? ms key).getD .absent

/-- The functions that every object offers under these names, unless it has members of its own
there. -/
def builtinNames : List String :=
  ["constructor", "hasOwnProperty", "isPrototypeOf", "propertyIsEnumerable", "toLocaleString",
    "toString", "valueOf", "__defineGetter__", "__defineSetter__", "__lookupGetter__",
    "__lookupSetter__"]

/-- What an object answers to a name: its member, else a function that every object offers. -/
def answer (ms : List (String × Native)) (key : String) : Native :=
  match Entries.find? ms key with
  | some v => v
  | none => if builtinNames.contains key then .builtin key else .absent

/-- The name of a value's kind. -/
def kindName : Native → String
  | .null => "object"
  | .absent => "undefined"
  | .bool _ => "boolean"
  | .number _ => "number"
  | .big _ => "bigint"
  | .text _ => "string"
  | .array _ => "object"
  | .set _ => "object"
  | .map _ => "object"
  | .object _ => "object"
  | .builtin _ => "function"

/-- A number that is whole, as a whole number. -/
def toInt? : Native → Option Int
  | .big n => some n
  | .number d => d.toInt?
  | _ => none

/-- A whole number as native data: a number. -/
def ofInt (n : Int) : Native := .number (.ofInt n)

end Native

end ShapeSchema
