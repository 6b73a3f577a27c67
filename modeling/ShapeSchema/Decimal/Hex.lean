import ShapeSchema.Decimal.Reading
import ShapeSchema.Text.Quoted

/-!
# Numbers as hexadecimal bits

A number is exchanged without loss as the sixteen digits of its bits, the sign first.
-/

namespace ShapeSchema.Double

/-- The bits of a number in lower-case digits. -/
def hex (d : Double) : String :=
  String.ofList
    ((List.range 16).reverse.map fun i => Text.hexDigit (d.bits.toNat / Nat.pow 16 i % 16))

/-- The number whose bits are given in digits; every NaN becomes `nan`. -/
def ofHex (s : String) : Double :=
  let d : Double := ⟨UInt64.ofNat (Decimal.natOfDigits 16 s.toList)⟩
  if d.isNaN then nan else d

end ShapeSchema.Double
