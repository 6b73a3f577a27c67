/-!
# Binary64 numbers

A number is its sixty-four bits. A finite number is a sign, a whole mantissa and a power of two, and
every operation here is exact whole-number arithmetic on those three: rounding a quotient to the
nearest number, ties to the even mantissa, is the one place where precision is lost.
-/

namespace ShapeSchema

/-- A binary64 number, held as its bits. -/
structure Double where
  bits : UInt64
deriving DecidableEq, Inhabited

namespace Double

/-- The number that is not a number. -/
def nan : Double := ⟨0x7ff8000000000000⟩

def zero : Double := ⟨0⟩

def infinity (negative : Bool) : Double :=
  if negative then ⟨0xfff0000000000000⟩ else ⟨0x7ff0000000000000⟩

/-- Weight of the sign bit, the sixty-third power of two. -/
def signWeight : Nat := 0x8000000000000000

/-- Weight of the lowest exponent bit, the fifty-second power of two. -/
def exponentWeight : Nat := 0x10000000000000

/-- Is the sign bit set? -/
def negative (d : Double) : Bool := decide (signWeight ≤ d.bits.toNat)

/-- The eleven exponent bits. -/
def exponentBits (d : Double) : Nat := d.bits.toNat / exponentWeight % 2048

/-- The fifty-two fraction bits. -/
def fractionBits (d : Double) : Nat := d.bits.toNat % exponentWeight

def isNaN (d : Double) : Bool := d.exponentBits == 2047 && d.fractionBits != 0

def isFinite (d : Double) : Bool := d.exponentBits != 2047

def isZero (d : Double) : Bool := d.exponentBits == 0 && d.fractionBits == 0

/-- The mantissa `m` of a finite number `±m · 2^q`. -/
def mantissa (d : Double) : Nat :=
  if d.exponentBits = 0 then d.fractionBits else exponentWeight + d.fractionBits

/-- The exponent `q` of a finite number `±m · 2^q`. -/
def exponent (d : Double) : Int :=
  if d.exponentBits = 0 then -1074 else (d.exponentBits : Int) - 1075

/-- Numeric equality: a NaN differs from itself, the two zeros are equal. -/
def same (a b : Double) : Bool :=
  !a.isNaN && !b.isNaN && (a == b || (a.isZero && b.isZero))

/-- The number with the given sign whose magnitude has the given low sixty-three bits. -/
def ofMagnitudeBits (neg : Bool) (n : Nat) : Double :=
  ⟨UInt64.ofNat (if neg then signWeight + n else n)⟩

/-- A whole quotient rounded to the nearest, a half to the even neighbour. -/
def roundQuotient (num den : Nat) : Nat :=
  let q := num / den
  let r := num % den
  if 2 * r < den then q
  else if 2 * r = den then (if q % 2 = 0 then q else q + 1)
  else q + 1

/-- The number nearest to `num / den` with the given sign. -/
def ofQuotient (neg : Bool) (num den : Nat) : Double :=
  if num = 0 ∨ den = 0 then ofMagnitudeBits neg 0 else
  let guess : Int := (num.log2 : Int) - (den.log2 : Int)
  let big := if guess < 0 then decide (den ≤ num * Nat.pow 2 guess.natAbs)
    else decide (den * Nat.pow 2 guess.natAbs ≤ num)
  let top : Int := if big then guess else guess - 1
  let q : Int := max (top - 52) (-1074)
  let m := if q < 0 then roundQuotient (num * Nat.pow 2 q.natAbs) den
    else roundQuotient num (den * Nat.pow 2 q.natAbs)
  let n : Nat := if m < exponentWeight then m
    else (q + 1075).toNat * exponentWeight + (m - exponentWeight)
  if 2047 * exponentWeight ≤ n then infinity neg else ofMagnitudeBits neg n

/-- The number nearest to a whole number. -/
def ofInt (n : Int) : Double := ofQuotient (decide (n < 0)) n.natAbs 1

/-- The number nearest to `±m · 2^q`. -/
def ofScaled (neg : Bool) (m : Nat) (q : Int) : Double :=
  if q < 0 then ofQuotient neg m (Nat.pow 2 q.natAbs) else ofQuotient neg (m * Nat.pow 2 q.natAbs) 1

/-- A finite number with its sign as a whole multiple of `2^q`, for a `q` not above its own. -/
def scaledTo (d : Double) (q : Int) : Int :=
  let n : Nat := d.mantissa * Nat.pow 2 (d.exponent - q).toNat
  if d.negative then -(n : Int) else n

/-- The whole number that a number equals, if it equals one. -/
def toInt? (d : Double) : Option Int :=
  if !d.isFinite then none
  else
    let signed (n : Nat) : Int := if d.negative then -(n : Int) else n
    if 0 ≤ d.exponent then some (signed (d.mantissa * Nat.pow 2 d.exponent.toNat))
    else
      let unit := Nat.pow 2 d.exponent.natAbs
      if d.mantissa % unit = 0 then some (signed (d.mantissa / unit)) else none

/-- How two numbers compare, if neither is NaN. -/
def compare? (a b : Double) : Option Ordering :=
  if a.isNaN || b.isNaN then none
  else if a.isFinite && b.isFinite then
    let q := min a.exponent b.exponent
    some (compare (a.scaledTo q) (b.scaledTo q))
  else
    let rank (d : Double) : Int :=
      if d.isFinite then 0 else if d.negative then -1 else 1
    some (compare (rank a) (rank b))

/-- How a number compares with a whole number, unless it is NaN. -/
def compareInt? (d : Double) (n : Int) : Option Ordering :=
  if d.isNaN then none
  else if d.isFinite then
    let q := min d.exponent 0
    some (compare (d.scaledTo q) (n * (Nat.pow 2 q.natAbs : Nat)))
  else some (if d.negative then .lt else .gt)

/-- Remainder with the sign of the dividend. -/
def rem (a b : Double) : Double :=
  if !a.isFinite || b.isNaN || b.isZero then nan
  else if !b.isFinite || a.isZero then a
  else
    let q := min a.exponent b.exponent
    ofScaled a.negative ((a.scaledTo q).natAbs % (b.scaledTo q).natAbs) q

/-- Lifts an operation of the machine's arithmetic; every NaN it gives is `nan`. -/
def ofFloat (f : Float) : Double := if f.isNaN then nan else ⟨f.toBits⟩

def toFloat (d : Double) : Float := Float.ofBits d.bits

def neg (d : Double) : Double := if d.isNaN then nan else ⟨d.bits ^^^ 0x8000000000000000⟩

def abs (d : Double) : Double := if d.negative then d.neg else d

def add (a b : Double) : Double := ofFloat (a.toFloat + b.toFloat)

def sub (a b : Double) : Double := ofFloat (a.toFloat - b.toFloat)

def mul (a b : Double) : Double := ofFloat (a.toFloat * b.toFloat)

def div (a b : Double) : Double := ofFloat (a.toFloat / b.toFloat)

def floor (a : Double) : Double := ofFloat a.toFloat.floor

def ceil (a : Double) : Double := ofFloat a.toFloat.ceil

end Double

end ShapeSchema
