import ShapeSchema.Decimal.Double
import ShapeSchema.Text.Blank

/-!
# Reading numbers from text

`Double.ofText` reads a trimmed text as a decimal number, a signed `Infinity` or an unsigned whole
number in base sixteen, eight or two; the empty text is zero and anything else is NaN.
-/

namespace ShapeSchema.Decimal

/-- The value of an ASCII digit in a base up to sixteen. -/
def digitValue? (base : Nat) (c : Char) : Option Nat :=
  let n := c.toNat
  let v := if 48 ≤ n ∧ n ≤ 57 then some (n - 48)
    else if 97 ≤ n ∧ n ≤ 102 then some (n - 87)
    else if 65 ≤ n ∧ n ≤ 70 then some (n - 55)
    else none
  v.filter fun x => decide (x < base)

def isDigit (c : Char) : Bool := (digitValue? 10 c).isSome

/-- The whole number that digits of a base stand for; other characters count as zero. -/
def natOfDigits (base : Nat) (cs : List Char) : Nat :=
  cs.foldl (fun n c => n * base + (digitValue? base c).getD 0) 0

/-- The leading digits and the rest. -/
def spanDigits (cs : List Char) : List Char × List Char := cs.span isDigit

/-- A sign, and what follows it. -/
def takeSign : List Char → Bool × List Char
  | '+' :: cs => (false, cs)
  | '-' :: cs => (true, cs)
  | cs => (false, cs)

/-- Reads a decimal whole number with an optional sign, ASCII digits only. -/
def readInt? (s : String) : Option Int :=
  let (neg, cs) := takeSign s.toList
  if cs.isEmpty || !cs.all isDigit then none
  else
    let n : Int := natOfDigits 10 cs
    some (if neg then -n else n)

/-- The exponent part of a decimal: `e`, a sign and digits, or nothing. -/
def readExponent : List Char → Option (Int × List Char)
  | [] => some (0, [])
  | c :: cs =>
    if c = 'e' ∨ c = 'E' then
      let (neg, cs) := takeSign cs
      let (ds, rest) := spanDigits cs
      if ds.isEmpty then none
      else
        let n : Int := natOfDigits 10 ds
        some (if neg then -n else n, rest)
    else some (0, c :: cs)

/-- The number nearest to `digits · 10^e`. The exponent is first cut to the range in which it
matters. -/
def ofDigits (neg : Bool) (digits : List Char) (e : Int) : Double :=
  let n := natOfDigits 10 digits
  let reach : Int := 400 + digits.length
  let e := max (-reach - 400) (min reach e)
  if e < 0 then Double.ofQuotient neg n (Nat.pow 10 e.natAbs)
  else Double.ofQuotient neg (n * Nat.pow 10 e.natAbs) 1

/-- The sign, digits and power of ten of an unsigned decimal that takes up the whole text. -/
def readDecimal (neg : Bool) (cs : List Char) : Option Double :=
  let (whole, rest) := spanDigits cs
  let (part, rest) := match rest with
    | '.' :: more => spanDigits more
    | _ => ([], rest)
  if whole.isEmpty && part.isEmpty then none
  else match readExponent rest with
    | some (e, []) => some (ofDigits neg (whole ++ part) (e - part.length))
    | _ => none

/-- A whole number written in another base after its mark. -/
def readBased (base : Nat) (cs : List Char) : Option Double :=
  if cs.isEmpty || !cs.all (fun c => (digitValue? base c).isSome) then none
  else some (Double.ofQuotient false (natOfDigits base cs) 1)

/-- The number a text stands for, if it stands for one. -/
def read? (s : String) : Option Double :=
  match Text.trimChars s.toList with
  | [] => some .zero
  | '0' :: 'x' :: cs => readBased 16 cs
  | '0' :: 'X' :: cs => readBased 16 cs
  | '0' :: 'o' :: cs => readBased 8 cs
  | '0' :: 'O' :: cs => readBased 8 cs
  | '0' :: 'b' :: cs => readBased 2 cs
  | '0' :: 'B' :: cs => readBased 2 cs
  | cs =>
    let (neg, body) := takeSign cs
    if body = "Infinity".toList then some (.infinity neg) else readDecimal neg body

end ShapeSchema.Decimal

namespace ShapeSchema.Double

/-- The number a text stands for, or NaN. -/
def ofText (s : String) : Double := (Decimal.read? s).getD .nan

end ShapeSchema.Double
