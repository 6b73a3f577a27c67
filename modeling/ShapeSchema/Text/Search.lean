import ShapeSchema.Text.Blank
import ShapeSchema.Text.Units

/-!
# Searching in texts

Where a text occurs in another, both as code units, and what becomes of a text that is cut or
changed at the occurrences of another. Occurrences do not overlap: the search goes on behind each.
-/

namespace ShapeSchema.Text

/-- The first place at which a text occurs. -/
def indexOf? (part : Units) : Units → Option Nat
  | [] => if part.isEmpty then some 0 else none
  | u :: us => if part.isPrefixOf (u :: us) then some 0 else (indexOf? part us).map (· + 1)

/-- The first place from `start` on at which a text occurs. -/
def indexFrom? (part whole : Units) (start : Nat) : Option Nat :=
  (indexOf? part (whole.drop start)).map (· + start)

/-- The last place up to `limit` at which a text occurs. -/
def lastIndexOf? (part whole : Units) (limit : Nat) : Option Nat :=
  (List.range (min limit whole.length + 1)).reverse.find? fun i => part.isPrefixOf (whole.drop i)

/-- The pieces between at most `count` occurrences of a text that is not empty. -/
def pieces (sep : Units) : Nat → Units → List Units
  | 0, us => [us]
  | count + 1, us =>
    match indexOf? sep us with
    | none => [us]
    | some i => us.take i :: pieces sep count (us.drop (i + sep.length))

/-- The pieces between the occurrences of a text; the empty text stands between all units. -/
def split (sep whole : Units) : List Units :=
  if sep.isEmpty then whole.map ([·]) else pieces sep whole.length whole

/-- Texts in a row with a separator between them. -/
def joined (sep : Units) (ts : List Units) : Units := (ts.intersperse sep).flatten

/-- A text without the blank units in front. -/
def trimFront (us : Units) : Units := us.dropWhile isBlankPoint

/-- A text without the blank units at its end. -/
def trimBack (us : Units) : Units := (us.reverse.dropWhile isBlankPoint).reverse

/-- A text without the blank units at both ends. -/
def trimUnits (us : Units) : Units := trimBack (trimFront us)

end ShapeSchema.Text
