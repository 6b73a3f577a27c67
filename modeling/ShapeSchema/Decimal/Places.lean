import ShapeSchema.Decimal.Shortest

/-!
# Whole parts and decimals of a chosen length

A number cut or rounded to a whole one, and the texts of a number with a chosen count of decimal
places or of digits. Every result is rounded once from the exact value, a half away from zero; only
rounding to a whole number takes a half upwards.
-/

namespace ShapeSchema.Double

/-- Numerator and denominator of a finite number's magnitude. -/
def ratio (d : Double) : Nat × Nat :=
  if 0 ≤ d.exponent then (d.mantissa * Nat.pow 2 d.exponent.toNat, 1)
  else (d.mantissa, Nat.pow 2 d.exponent.natAbs)

/-- The whole number towards zero; none is zero, and an infinity is beyond every count. -/
def truncated (d : Double) : Int :=
  let n : Nat :=
    if d.isNaN then 0
    else if d.isFinite then d.ratio.1 / d.ratio.2
    else 0x7fffffffffffffff
  if d.negative then -(n : Int) else n

/-- The nearest whole number, a half upwards; a result of zero keeps the sign. -/
def rounded (d : Double) : Double :=
  if !d.isFinite || d.toInt?.isSome then d
  else
    let (num, den) := d.ratio
    let signed : Int := if d.negative then -(num : Int) else num
    let n := (2 * signed + den) / (2 * den : Nat)
    if n = 0 then ofMagnitudeBits d.negative 0 else ofInt n

/-- A quotient rounded to the nearest whole number, a half upwards. -/
def halfUp (num den : Nat) : Nat := (2 * num + den) / (2 * den)

/-- A magnitude with its sign. -/
def signed (negative : Bool) (cs : List Char) : String :=
  String.ofList (if negative then '-' :: cs else cs)

/-- Digits of a whole number, zeros in front up to a length. -/
def padded (length n : Nat) : List Char :=
  let ds := Nat.toDigits 10 n
  List.replicate (length - ds.length) '0' ++ ds

/-- Text with a count of decimal places; what is too large or not finite has its shortest text. -/
def fixed (d : Double) (places : Nat) : String :=
  let (num, den) := d.ratio
  if !d.isFinite || 1000000000000000000000 * den ≤ num then d.text
  else
    let n := halfUp (num * Nat.pow 10 places) den
    let ds := padded (places + 1) n
    let (whole, part) := ds.splitAt (ds.length - places)
    signed (d.negative && !d.isZero) (if places = 0 then whole else whole ++ '.' :: part)

/-- The digits of a positive finite number, as many as asked for, and its decimal exponent. -/
def leadingDigits (d : Double) (count : Nat) : List Char × Int :=
  let (num, den) := d.ratio
  let scaled (e : Int) : Nat :=
    let shift := (count : Int) - e
    if 0 ≤ shift then halfUp (num * Nat.pow 10 shift.toNat) den
    else halfUp num (den * Nat.pow 10 shift.natAbs)
  let e := decade num den
  let n := scaled e
  if n < Nat.pow 10 count then (padded count n, e - 1) else (padded count (scaled (e + 1)), e)

/-- Digits with a point behind the first and the exponent. -/
def withExponent (ds : List Char) (e : Int) : List Char :=
  let tail := 'e' :: (if e < 0 then '-' else '+') :: Nat.toDigits 10 e.natAbs
  match ds with
  | c :: d :: ds => c :: '.' :: d :: ds ++ tail
  | ds => ds ++ tail

/-- The digits of a finite number, zero included. -/
def digitsOf (d : Double) (count : Nat) : List Char × Int :=
  if d.isZero then (List.replicate count '0', 0) else d.leadingDigits count

/-- Text with a count of digits, positional unless the exponent is below `-6` or not below the
count. -/
def precise (d : Double) (count : Nat) : String :=
  if !d.isFinite then d.text
  else
    let (ds, e) := d.digitsOf count
    let body :=
      if e < -6 ∨ (count : Int) ≤ e then withExponent ds e
      else if e < 0 then '0' :: '.' :: List.replicate (e.natAbs - 1) '0' ++ ds
      else if e.toNat + 1 = count then ds
      else ds.take (e.toNat + 1) ++ '.' :: ds.drop (e.toNat + 1)
    signed (d.negative && !d.isZero) body

/-- Text with an exponent and a count of decimal places, as many as needed if none is given. -/
def scientific (d : Double) (places : Option Nat) : String :=
  if !d.isFinite then d.text
  else
    let (ds, e) := match places with
      | some n => d.digitsOf (n + 1)
      | none =>
        if d.isZero then (['0'], 0)
        else
          let (c, s) := shortest ⟨d.bits &&& 0x7fffffffffffffff⟩
          let all := Nat.toDigits 10 c
          ((all.reverse.dropWhile (· == '0')).reverse, (all.length : Int) + s - 1)
    signed (d.negative && !d.isZero) (withExponent ds e)

end ShapeSchema.Double
