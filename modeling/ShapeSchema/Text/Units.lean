/-!
# Sixteen-bit text units

A text is counted, and two texts are ordered, by their UTF-16 code units: a character beyond the
basic plane counts as two units and sorts by its first surrogate, below `U+E000`. Cutting between
the two leaves halves that are no characters, so a text that was cut is held as its units.
-/

namespace ShapeSchema.Text

/-- A text as its code units. -/
abbrev Units := List Nat

/-- One or two code units of a code point. -/
def unitsOfPoint (n : Nat) : Units :=
  if n < 0x10000 then [n]
  else [0xD800 + (n - 0x10000) / 0x400, 0xDC00 + (n - 0x10000) % 0x400]

/-- Code units of a text. -/
def units (s : String) : Units := s.toList.flatMap fun c => unitsOfPoint c.toNat

/-- Length of a text in code units. -/
def unitCount (s : String) : Nat := (units s).length

/-- Strict order of texts by code units. -/
def lt (a b : String) : Bool := decide (units a < units b)

/-- Order of texts by code units: neither text comes after itself. -/
def le (a b : String) : Bool := !lt b a

def isHighHalf (n : Nat) : Bool := decide (0xD800 ≤ n) && decide (n < 0xDC00)

def isLowHalf (n : Nat) : Bool := decide (0xDC00 ≤ n) && decide (n < 0xE000)

/-- Code points of code units: two halves in a row are one, a half alone stands for itself. -/
def points : Units → List Nat
  | [] => []
  | [u] => [u]
  | u :: v :: us =>
    if isHighHalf u && isLowHalf v then (0x10000 + (u - 0xD800) * 0x400 + (v - 0xDC00)) :: points us
    else u :: points (v :: us)

/-- Code units of code points. -/
def ofPoints (ns : List Nat) : Units := ns.flatMap unitsOfPoint

/-- The text of code units; a half alone becomes the replacement character. -/
def ofUnits (us : Units) : String :=
  String.ofList ((points us).map fun n =>
    if isHighHalf n || isLowHalf n then '\ufffd' else Char.ofNat n)

end ShapeSchema.Text
