import ShapeSchema.Decimal.Double

/-!
# Shortest decimal text of a number

A number is written with the fewest digits that read back as the same number; among the decimals of
that length it is the nearest, and of two nearest the even one. Magnitudes from `1e-6` below `1e21`
are written positionally, all others with an exponent.
-/

namespace ShapeSchema.Double

/-- Count of decimal digits of a positive whole number. -/
def digitCount (n : Nat) : Nat := (Nat.toDigits 10 n).length

/-- The decade of `num / den`: the least `e` with `num / den < 10^e`. -/
def decade (num den : Nat) : Int :=
  if den ≤ num then digitCount (num / den) else 1 - (digitCount ((den - 1) / num) : Int)

/-- The reals that round to a finite number, in units of a quarter of its last place. -/
structure Neighbourhood where
  low : Nat
  mid : Nat
  high : Nat
  closed : Bool
  quarter : Int

/-- The reals that round to a positive finite number; the ends count if the mantissa is even. -/
def neighbourhood (d : Double) : Neighbourhood :=
  let m := d.mantissa
  let low := if m = exponentWeight ∧ 1 < d.exponentBits then 4 * m - 1 else 4 * m - 2
  ⟨low, 4 * m, 4 * m + 2, m % 2 == 0, d.exponent - 2⟩

/-- The better of the two multiples of `10^s` around the middle, if one lies in the neighbourhood.
-/
def Neighbourhood.nearest? (r : Neighbourhood) (s : Int) : Option Nat :=
  -- comparisons are scaled by `unit`, the denominators of `10^s` and of the quarter
  let unit := Nat.pow 10 (-s).toNat * Nat.pow 2 r.quarter.toNat
  let step := Nat.pow 10 s.toNat * Nat.pow 2 (-r.quarter).toNat
  let inside (c : Nat) : Bool :=
    if r.closed then decide (r.low * unit ≤ c * step) && decide (c * step ≤ r.high * unit)
    else decide (r.low * unit < c * step) && decide (c * step < r.high * unit)
  let below := r.mid * unit / step
  let above := below + 1
  let down := r.mid * unit - below * step
  let up := above * step - r.mid * unit
  match inside below, inside above with
  | true, true =>
    if down < up then some below
    else if up < down then some above
    else some (if below % 2 = 0 then below else above)
  | true, false => some below
  | false, true => some above
  | false, false => none

/-- Digits `c` and exponent `s` of the shortest decimal `c · 10^s` of a positive finite number. -/
def shortest (d : Double) : Nat × Int :=
  let r := d.neighbourhood
  let e := decade (r.mid * Nat.pow 2 r.quarter.toNat) (Nat.pow 2 (-r.quarter).toNat)
  let found := (List.range 17).findSome? fun i =>
    let s := e - (i + 1 : Nat)
    (r.nearest? s).map fun c => (c, s)
  found.getD (d.mantissa, 0)

/-- Writes `count` zeros. -/
def zeros (count : Nat) : List Char := List.replicate count '0'

/-- Positional or scientific text of digits whose point stands after the first `point` of them. -/
def layOut (digits : List Char) (point : Int) : List Char :=
  let k : Int := digits.length
  if k ≤ point ∧ point ≤ 21 then digits ++ zeros (point - k).toNat
  else if 0 < point ∧ point ≤ 21 then digits.take point.toNat ++ '.' :: digits.drop point.toNat
  else if -6 < point ∧ point ≤ 0 then '0' :: '.' :: zeros (-point).toNat ++ digits
  else
    let e := point - 1
    let tail := 'e' :: (if e < 0 then '-' else '+') :: Nat.toDigits 10 e.natAbs
    match digits with
    | [] => tail
    | [c] => c :: tail
    | c :: cs => c :: '.' :: cs ++ tail

/-- Decimal text of a number; both zeros are written `0`. -/
def text (d : Double) : String :=
  if d.isNaN then "NaN"
  else if !d.isFinite then (if d.negative then "-Infinity" else "Infinity")
  else if d.isZero then "0"
  else
    let (c, s) := d.shortest
    let all := Nat.toDigits 10 c
    let digits := (all.reverse.dropWhile (· == '0')).reverse
    let body := layOut digits (all.length + s)
    String.ofList (if d.negative then '-' :: body else body)

end ShapeSchema.Double
