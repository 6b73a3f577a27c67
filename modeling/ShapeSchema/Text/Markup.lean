import ShapeSchema.Text.Quoted
import ShapeSchema.Text.Search

/-!
# Texts for other formats

How a text, as code units, is written inside markup, inside quotes and inside an address, and what
is left of markup without its tags.
-/

namespace ShapeSchema.Text

/-- A unit inside markup. -/
def escapeMark : Nat → Units
  | 0x26 => units "&amp;"
  | 0x22 => units "&quot;"
  | 0x27 => units "&#39;"
  | 0x3C => units "&lt;"
  | 0x3E => units "&gt;"
  | 0x5C => units "&#92;"
  | u => [u]

/-- A text inside markup. -/
def escapeMarks (us : Units) : Units := us.flatMap escapeMark

/-- A text between quotes; a half alone is written by its number. -/
def quotedUnits (us : Units) : Units :=
  let written (n : Nat) : Units :=
    if isHighHalf n || isLowHalf n then
      units (String.ofList ['\\', 'u', hexDigit (n / 0x1000), hexDigit (n / 0x100 % 16),
        hexDigit (n / 16 % 16), hexDigit (n % 16)])
    else units (String.ofList (escape (Char.ofNat n)))
  units "\"" ++ (points us).flatMap written ++ units "\""

/-! ## Addresses -/

/-- Bytes of a code point, one to four. -/
def bytesOfPoint (n : Nat) : List Nat :=
  if n < 0x80 then [n]
  else if n < 0x800 then [0xC0 + n / 0x40, 0x80 + n % 0x40]
  else if n < 0x10000 then [0xE0 + n / 0x1000, 0x80 + n / 0x40 % 0x40, 0x80 + n % 0x40]
  else [0xF0 + n / 0x40000, 0x80 + n / 0x1000 % 0x40, 0x80 + n / 0x40 % 0x40, 0x80 + n % 0x40]

/-- Is the unit an ASCII letter or digit? -/
def isAlnum (n : Nat) : Bool :=
  (decide (0x30 ≤ n) && decide (n < 0x3A)) || (decide (0x41 ≤ n) && decide (n < 0x5B))
    || (decide (0x61 ≤ n) && decide (n < 0x7B))

/-- A text as a part of an address; a half alone has no place there. -/
def addressed? (us : Units) : Option Units :=
  let digit (n : Nat) : Nat := if n < 10 then 0x30 + n else 0x37 + n
  let written (n : Nat) : Units :=
    if isAlnum n || (units "-_.!~*'()").contains n then [n]
    else (bytesOfPoint n).flatMap fun b => [0x25, digit (b / 16), digit (b % 16)]
  let ps := points us
  if ps.any fun n => isHighHalf n || isLowHalf n then none else some (ps.flatMap written)

/-! ## Tags -/

def isLetter (n : Nat) : Bool := isAlnum n && !(decide (0x30 ≤ n) && decide (n < 0x3A))

/-- Is the unit part of a word? -/
def isWordUnit (n : Nat) : Bool := isAlnum n || n == 0x5F

/-- What is behind the tag or comment that an opening bracket starts, given what follows it. -/
def afterTag? (us : Units) : Option Units :=
  let name := if us.head? = some 0x2F then us.tail else us
  let behind := name.dropWhile isAlnum
  if name.head?.any isLetter && behind.head? != some 0x5F then
    match behind.dropWhile (· != 0x3E) with
    | [] => none
    | _ :: rest => some rest
  else if (units "!--").isPrefixOf us then
    (indexFrom? (units "-->") us 3).map fun i => us.drop (i + 3)
  else none

/-- A text without its tags and comments; the fuel is its length. -/
def withoutTags : Nat → Units → Units
  | fuel + 1, u :: us =>
    if u = 0x3C then
      match afterTag? us with
      | some rest => withoutTags fuel rest
      | none => u :: withoutTags fuel us
    else u :: withoutTags fuel us
  | _, us => us

/-- Replaces each run of units of a kind, if it is longer than `least`. -/
def squash (kind : Nat → Bool) (least : Nat) (new : Units) : Nat → Units → Units
  | fuel + 1, u :: us =>
    let run := (u :: us).takeWhile kind
    if least < run.length then new ++ squash kind least new fuel ((u :: us).drop run.length)
    else u :: squash kind least new fuel us
  | _, us => us

/-- Does the unit end a line? -/
def isLineEnd (n : Nat) : Bool := n == 0x0A || n == 0x0D || n == 0x2028 || n == 0x2029

/-- A text without the spaces at both ends of its lines; `start` tells that a line starts here. -/
def trimLines (start : Bool) : Nat → Units → Units
  | fuel + 1, u :: us =>
    if u = 0x20 then
      let rest := us.dropWhile (· == 0x20)
      if start || rest.head?.all isLineEnd then trimLines false fuel rest
      else (u :: us).take (us.length + 1 - rest.length) ++ trimLines false fuel rest
    else u :: trimLines (isLineEnd u) fuel us
  | _, us => us

/-- The text of markup: without tags, its blanks squashed; lines are kept on request. -/
def stripped (keepLines : Bool) (us : Units) : Units :=
  let us := trimUnits (withoutTags us.length us)
  if keepLines then
    let us := trimLines true us.length us
    let us := squash (· == 0x20) 0 [0x20] us.length us
    let us := joined [0x0A] (split [0x0D, 0x0A] us)
    squash (· == 0x0A) 2 [0x0A, 0x0A] us.length us
  else squash isBlankPoint 0 [0x20] us.length us

/-- The words of a text: its runs of letters, digits and underlines. -/
def wordCount (us : Units) : Nat :=
  (us.zip (0 :: us)).countP fun p => isWordUnit p.1 && !isWordUnit p.2

end ShapeSchema.Text
