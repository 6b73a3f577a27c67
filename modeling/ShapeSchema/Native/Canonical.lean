import ShapeSchema.Native.Basic
import ShapeSchema.Text.Units
import ShapeSchema.Text.Quoted

/-!
# Canonical text

`Native.canonical` writes data as one line of text in which the order of an object's members is
fixed: array indices first in ascending order, then the other keys by code units. Whole numbers
beyond the number type are written as quoted digits, maps as arrays of pairs, sets as empty objects,
numbers that are not finite as `null`, and absent members and functions are left out. Members called
`meta` are left out on request.
-/

namespace ShapeSchema.Native

/-- Members in canonical order. -/
def canonicalOrder {β : Type} (es : List (String × β)) : List (String × β) :=
  objectOrder (es.mergeSort fun a b => Text.le a.1 b.1)

/-- Text of a number; only finite numbers have one. -/
def numberText (d : Double) : String := if d.isFinite then d.text else "null"

mutual

/-- Canonical text, or nothing for an absent value. -/
def canonical? (full : Bool) : Native → Option String
  | .null => some "null"
  | .absent => none
  | .builtin _ => none
  | .bool b => some (if b then "true" else "false")
  | .number d => some (numberText d)
  | .big n => some (Text.quoted (toString n))
  | .text s => some (Text.quoted s)
  | .array items => some ("[" ++ ",".intercalate (canonicalItems full items) ++ "]")
  | .set _ => some "\x7b\x7d"
  | .map entries => some ("[" ++ ",".intercalate (canonicalPairs full entries) ++ "]")
  | .object ms =>
    let shown := canonicalOrder (canonicalMembers full ms)
    some ("\x7b" ++ ",".intercalate (shown.map fun p => Text.quoted p.1 ++ ":" ++ p.2) ++ "\x7d")

/-- Texts of an array's items. -/
def canonicalItems (full : Bool) : List Native → List String
  | [] => []
  | v :: vs => (canonical? full v).getD "null" :: canonicalItems full vs

/-- Texts of a map's entries. -/
def canonicalPairs (full : Bool) : List (Native × Native) → List String
  | [] => []
  | (k, v) :: es =>
    ("[" ++ (canonical? full k).getD "null" ++ "," ++ (canonical? full v).getD "null" ++ "]")
      :: canonicalPairs full es

/-- Keys and texts of the members that are written. -/
def canonicalMembers (full : Bool) : List (String × Native) → List (String × String)
  | [] => []
  | (k, v) :: ms =>
    match canonical? full v with
    | some t =>
      if !full && k == "meta" then canonicalMembers full ms else (k, t) :: canonicalMembers full ms
    | none => canonicalMembers full ms

end

/-- Canonical text; an absent value is written `null`. `full` keeps the members called `meta`. -/
def canonical (v : Native) (full : Bool) : String := (canonical? full v).getD "null"

end ShapeSchema.Native
