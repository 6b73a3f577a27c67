import ShapeSchema.Native.Basic
import ShapeSchema.Value.Media
import ShapeSchema.Text.Quoted

/-!
# Dynamic values

The values that a model answers with and that native data are written as. Whole numbers are those of
sixty-four bits; maps and classes keep their entries in order of arrival, and equality ignores that
order.
-/

namespace ShapeSchema

/-- A dynamic value. -/
inductive Value where
  | null
  | bool (b : Bool)
  | int (n : Int)
  | float (d : Double)
  | text (s : String)
  | list (items : List Value)
  | map (entries : List (String × Value))
  | classOf (name : String) (fields : List (String × Value))
  | enumOf (name : String) (variant : String)
  | media (m : Media)
deriving Inhabited

/-- Least and greatest whole number of sixty-four bits. -/
def int64Min : Int := -0x8000000000000000

def int64Max : Int := 0x7FFFFFFFFFFFFFFF

def fitsInt64 (n : Int) : Bool := decide (int64Min ≤ n) && decide (n ≤ int64Max)

namespace Value

/-- A whole number value, or the message that refuses one beyond sixty-four bits. -/
def ofInt (n : Int) : Except String Value :=
  if fitsInt64 n then .ok (.int n) else .error s!"{n} is outside the i64 range"

/-- The map of entries in order of arrival; a repeated key keeps its first place and its last value.
-/
def ofEntries (es : List (String × Value)) : Value := .map (Entries.ofList es)

/-- The class value of fields in order of arrival. -/
def ofFields (name : String) (fs : List (String × Value)) : Value :=
  .classOf name (Entries.ofList fs)

/-- The entries of a map or class value. -/
def entries? : Value → Option (List (String × Value))
  | .map es => some es
  | .classOf _ fs => some fs
  | _ => none

/-- The name that an enum value or a text gives for a variant. -/
def variantName? : Value → Option String
  | .enumOf _ variant => some variant
  | .text s => some s
  | _ => none

def isNull : Value → Bool
  | .null => true
  | _ => false

/-- Short text of a value for messages. -/
def describe : Value → String
  | .null => "null"
  | .bool b => if b then "true" else "false"
  | .int n => toString n
  | .float d => d.text
  | .text s => "string " ++ Text.quoted s
  | .list _ => "list"
  | .map _ => "map"
  | .classOf name _ => "class " ++ name
  | .enumOf name variant => "enum " ++ name ++ "." ++ variant
  | .media m => "media " ++ m.kind.text

/-! ## Equality -/

mutual

/-- Equality of values: the order of map and class entries does not count, and floats compare as
numbers. -/
def same : Value → Value → Bool
  | .null, .null => true
  | .bool a, .bool b => a == b
  | .int a, .int b => a == b
  | .float a, .float b => a.same b
  | .text a, .text b => a == b
  | .list as, .list bs => sameItems as bs
  | .map as, .map bs => as.length == bs.length && sameEntries as bs
  | .classOf a as, .classOf b bs => b == a && (as.length == bs.length && sameEntries as bs)
  | .enumOf a x, .enumOf b y => b == a && y == x
  | .media a, .media b => a == b
  | _, _ => false

/-- Equality of lists, item by item. -/
def sameItems : List Value → List Value → Bool
  | [], [] => true
  | a :: as, b :: bs => same a b && sameItems as bs
  | _, _ => false

/-- Does the second table hold an equal value under each key of the first? -/
def sameEntries : List (String × Value) → List (String × Value) → Bool
  | [], _ => true
  | (k, v) :: es, fs =>
    (match Entries.find? fs k with
     | some w => same v w
     | none => false) && sameEntries es fs

end

end Value

end ShapeSchema
