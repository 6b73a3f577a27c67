import ShapeSchema.Decimal.Reading
import ShapeSchema.Text.Units

/-!
# Escapes of names

A name may spell its characters by backslash escapes: control characters by a letter, code units by
`x` and two or `u` and four hexadecimal digits, and by up to three octal digits below 256. A
backslash before a line end is dropped with it, and before any other character alone. Quotes and
line ends do not stand in names by themselves.
-/

namespace ShapeSchema.Text

/-- The control character that a letter names behind a backslash. -/
def controlEscape? : Char → Option Nat
  | 'b' => some 8
  | 't' => some 9
  | 'n' => some 10
  | 'v' => some 11
  | 'f' => some 12
  | 'r' => some 13
  | _ => none

/-- A number of exactly some hexadecimal digits, and the rest. -/
def hexDigits? (count : Nat) (cs : List Char) : Option (Nat × List Char) :=
  let ds := cs.take count
  if ds.length = count && ds.all (fun c => (Decimal.digitValue? 16 c).isSome) then
    some (Decimal.natOfDigits 16 ds, cs.drop count)
  else none

/-- Octal digits for a number below 256, and the rest. -/
def octalDigits (cs : List Char) : List Char × List Char :=
  let isOctal (c : Char) : Bool := (Decimal.digitValue? 8 c).isSome
  let reach := if cs.head?.any fun c => decide (c.toNat < '4'.toNat) then 3 else 2
  let ds := (cs.take reach).takeWhile isOctal
  (ds, cs.drop ds.length)

/-- The code units behind a backslash, and the rest. -/
def escape? : List Char → Option (Units × List Char)
  | [] => none
  | 'x' :: cs => (hexDigits? 2 cs).map fun p => ([p.1], p.2)
  | 'u' :: cs => (hexDigits? 4 cs).map fun p => ([p.1], p.2)
  | c :: cs =>
    match controlEscape? c with
    | some n => some ([n], cs)
    | none =>
      if (Decimal.digitValue? 8 c).isSome then
        let (ds, rest) := octalDigits (c :: cs)
        some ([Decimal.natOfDigits 8 ds], rest)
      else if c = '\n' ∨ c = '\r' ∨ c = '\u2028' ∨ c = '\u2029' then some ([], cs)
      else some (unitsOfPoint c.toNat, cs)

/-- The code units that a name spells, if every escape is complete. -/
def unescapeWithin : Nat → List Char → Option Units
  | _, [] => some []
  | 0, _ => none
  | fuel + 1, '\\' :: cs => do
    let (us, rest) ← escape? cs
    return us ++ (← unescapeWithin fuel rest)
  | fuel + 1, c :: cs =>
    if c = '"' ∨ c = '\n' ∨ c = '\r' then none
    else (unescapeWithin fuel cs).map (unitsOfPoint c.toNat ++ ·)

def unescape? (cs : List Char) : Option Units := unescapeWithin cs.length cs

end ShapeSchema.Text
