import TemplateCompiler.Decimal.Shortest

/-! # The remainder of two doubles

The remainder of a division that truncates is always a double, so it can be computed without
rounding: both numbers are integers times a common power of two, and the remainder of the
integers is the answer.  Its sign is the sign of the dividend, also when it is zero.
-/

namespace TemplateCompiler.Decimal

/-- The bits of `significand * 2 ^ exponent`, for a significand of at most 53 bits and an
exponent of at least -1074. -/
def bitsOf (significand : Nat) (exponent : Int) : Nat :=
  if significand = 0 then 0
  else
    let shift := min (52 - significand.log2) (exponent + 1074).toNat
    let m := significand * twoPow shift
    if m < fractionCount then m
    else (exponent - shift + 1075).toNat * fractionCount + (m - fractionCount)

/-- The remainder of two magnitudes, as bits. -/
def remainderBits (a b : Binary) : Nat :=
  let low := min a.exponent b.exponent
  let m := a.significand * twoPow (a.exponent - low).toNat
  let n := b.significand * twoPow (b.exponent - low).toNat
  bitsOf (m % n) low

/-- The remainder of a division that truncates.  Dividing an infinity or by zero gives a NaN, and
an infinite divisor leaves the dividend as it is. -/
def remainder (x y : Float) : Float :=
  if x.isNaN || y.isNaN || x.isInf || y == 0.0 then 0.0 / 0.0
  else if y.isInf then x
  else
    let sign := x.toBits.toNat / signWeight * signWeight
    let magnitude (z : Float) : Binary := Binary.ofBits (z.toBits.toNat % signWeight)
    Float.ofBits (UInt64.ofNat (sign + remainderBits (magnitude x) (magnitude y)))

end TemplateCompiler.Decimal
