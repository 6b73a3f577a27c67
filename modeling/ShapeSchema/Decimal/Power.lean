import ShapeSchema.Decimal.Double

/-!
# Powers of binary64 numbers

A power is two to the product of the exponent with the base's binary logarithm. Logarithm and
product are sums of a coarse number, whose low bits are zero, and a fine rest, so the result is off
by less than one unit in its last place. It is not always the nearest number, and which of two
neighbours is met depends on every step here and on their order.
-/

namespace ShapeSchema.Double

/-- The upper thirty-two bits of a number. -/
def upper (f : Float) : UInt64 := f.toBits >>> 32

/-- A number whose lower thirty-two bits are zero. -/
def ofUpper (w : UInt64) : Float := .ofBits (w <<< 32)

/-- A number without its lower thirty-two bits. -/
def coarsen (f : Float) : Float := ofUpper (upper f)

/-- The exact sum of two numbers, of which the first is coarse. -/
structure Pair where
  coarse : Float
  fine : Float

/-! ## The logarithm -/

/-- The binary logarithm of a number close to one, by four terms of its series. -/
def log2NearOne (x : Float) : Pair :=
  let t := x - 1
  let w := (t * t) * (0.5 - t * (.ofBits 0x3fd5555555555555 - t * 0.25))
  let u := .ofBits 0x3ff7154760000000 * t
  let v := t * .ofBits 0x3e54ae0bf85ddf44 - w * .ofBits 0x3ff71547652b82fe
  let c := coarsen (u + v)
  ⟨c, v - (c - u)⟩

/-- How a positive number is taken apart for its logarithm: `2^exponent` times a number near one, or
near three halves. -/
structure Reduced where
  exponent : Int
  number : Float
  nearOne : Bool

def reduce (x : Float) : Reduced :=
  let tiny := upper x < 0x100000
  let x := if tiny then x * .ofBits 0x4340000000000000 else x
  let n : Int := ((upper x >>> 20).toNat : Int) - 1023 - (if tiny then 53 else 0)
  let fraction := upper x &&& 0xfffff
  let low := x.toBits &&& 0xffffffff
  let number (w : UInt64) : Float := .ofBits (w <<< 32 ||| low)
  if fraction ≤ 0x3988e then ⟨n, number (fraction ||| 0x3ff00000), true⟩
  else if fraction < 0xbb67a then ⟨n, number (fraction ||| 0x3ff00000), false⟩
  else ⟨n + 1, number ((fraction ||| 0x3ff00000) - 0x100000), true⟩

/-- The binary logarithm of a positive finite number, by a polynomial in the square of
`(x - c) / (x + c)`, where `c` is one or three halves. -/
def log2 (x : Float) : Pair :=
  let r := reduce x
  let x := r.number
  let centre : Float := if r.nearOne then 1 else 1.5
  let u := x - centre
  let v := 1 / (x + centre)
  let s := u * v
  let sHigh := coarsen s
  let shift : UInt64 := if r.nearOne then 0x80000 else 0xc0000
  let sum := ofUpper (((upper x >>> 1) ||| 0x20000000) + shift)
  let sLow := v * ((u - sHigh * sum) - sHigh * (x - (sum - centre)))
  let s2 := s * s
  let poly := s2 * s2 * (.ofBits 0x3fe3333333333303 + s2 * (.ofBits 0x3fdb6db6db6fabff
    + s2 * (.ofBits 0x3fd55555518f264d + s2 * (.ofBits 0x3fd17460a91d4101
    + s2 * (.ofBits 0x3fcd864a93c9db65 + s2 * .ofBits 0x3fca7e284a454eef)))))
  let rest := poly + sLow * (sHigh + s)
  let s2 := sHigh * sHigh
  let tHigh := coarsen (3 + s2 + rest)
  let tLow := rest - ((tHigh - 3) - s2)
  let u := sHigh * tHigh
  let v := sLow * tHigh + tLow * s
  let pHigh := coarsen (u + v)
  let pLow := v - (pHigh - u)
  let offset : Pair :=
    if r.nearOne then ⟨0, 0⟩ else ⟨.ofBits 0x3fe2b80340000000, .ofBits 0x3e4cfdeb43cfd006⟩
  let zHigh := .ofBits 0x3feec709e0000000 * pHigh
  let zLow := .ofBits 0xbe3e2fe0145b01f5 * pHigh + pLow * .ofBits 0x3feec709dc3a03fd + offset.fine
  let n := Float.ofInt r.exponent
  let c := coarsen (((zHigh + zLow) + offset.coarse) + n)
  ⟨c, zLow - (((c - n) - offset.coarse) - zHigh)⟩

/-! ## The exponential -/

/-- Two to the power of a sum near zero. -/
def exp2NearZero (coarse fine : Float) : Float :=
  let t := coarsen (fine + coarse)
  let u := t * .ofBits 0x3fe62e4300000000
  let v := (fine - (t - coarse)) * .ofBits 0x3fe62e42fefa39ef + t * .ofBits 0xbe205c610ca86c39
  let z := u + v
  let w := v - (z - u)
  let t := z * z
  let t := z - t * (.ofBits 0x3fc555555555553e + t * (.ofBits 0xbf66c16c16bebd93
    + t * (.ofBits 0x3f11566aaf25de2c + t * (.ofBits 0xbebbbd41c5d26bf1
    + t * .ofBits 0x3e66376972bea4d0))))
  1 - (((z * t) / (t - 2) - (w + z * w)) - z)

/-- The whole number nearest to a sum of magnitude above one half, and the same as a float. -/
def nearestWhole (z : Float) : Int × Float :=
  let exponent := ((upper z &&& 0x7fffffff) >>> 20) - 0x3fe
  let w := upper z + (0x100000 >>> exponent)
  let exponent := ((w &&& 0x7fffffff) >>> 20) - 0x3ff
  let n := (((w &&& 0xfffff) ||| 0x100000) >>> (20 - exponent)).toNat
  let whole := ofUpper (w &&& ((0xffffffff : UInt64) - (0xfffff >>> exponent)))
  (if z < 0 then -(n : Int) else n, whole)

/-- Two to the power of a sum, with the given sign. -/
def exp2 (negative : Bool) (p : Pair) : Double :=
  let z := p.fine + p.coarse
  if 1024 < z || (z == 1024 && z - p.coarse < p.fine + .ofBits 0x3c971547652b82fe) then
    infinity negative
  else if z < -1075 || (z == -1075 && p.fine ≤ z - p.coarse) then ofMagnitudeBits negative 0
  else
    let (n, whole) := if 0x3fe00000 < upper z &&& 0x7fffffff then nearestWhole z else (0, 0)
    let r := ofFloat (exp2NearZero (p.coarse - whole) p.fine)
    ofScaled negative r.mantissa (r.exponent + n)

/-! ## Powers -/

/-- The power of a positive finite base other than one to a finite exponent that is not zero, with
the given sign. -/
def powMagnitude (negative : Bool) (x y : Float) : Double :=
  let extreme (grows : Bool) : Double :=
    if grows then infinity negative else ofMagnitudeBits negative 0
  let size := upper y &&& 0x7fffffff
  let times (l : Pair) : Pair :=
    let c := coarsen y
    ⟨c * l.coarse, (y - c) * l.coarse + y * l.fine⟩
  if 0x41e00000 < size then
    if upper x < 0x3fefffff || (0x43f00000 < size && upper x ≤ 0x3fefffff) then extreme (y < 0)
    else if 0x3ff00000 < upper x || 0x43f00000 < size then extreme (0 < y)
    else exp2 negative (times (log2NearOne x))
  else exp2 negative (times (log2 x))

/-- Power; a NaN exponent, and a base of magnitude one under an infinite exponent, give NaN. -/
def pow (a b : Double) : Double :=
  let one := ofInt 1
  let whole := b.toInt?
  let odd := whole.any fun n => n % 2 != 0
  if b.isZero then one
  else if a.isNaN || b.isNaN then nan
  else if !b.isFinite then
    if a.abs == one then nan
    else if (a.abs.compare? one == some .gt) != b.negative then infinity false else zero
  else if whole == some 1 then a
  else if whole == some (-1) then one.div a
  else if whole == some 2 then a.mul a
  else if b == ⟨0x3fe0000000000000⟩ && !a.negative then ofFloat a.toFloat.sqrt
  else if a.isZero || !a.isFinite || a.abs == one then
    let z := if b.negative then one.div a.abs else a.abs
    if a.negative && a.abs == one && whole.isNone then nan
    else if a.negative && odd then z.neg else z
  else if a.negative && whole.isNone then nan
  else powMagnitude (a.negative && odd) a.abs.toFloat b.toFloat

end ShapeSchema.Double
