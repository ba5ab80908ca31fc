/-! # Powers of two and of ten

The two bases in which a double is looked at, and the sizes of the parts of its 64 bits: a sign
bit, eleven bits of scale and 52 bits of fraction.
-/

namespace TemplateCompiler.Decimal

/-- Two to the power `n`. -/
def twoPow (n : Nat) : Nat := Nat.pow 2 n

/-- Ten to the power `n`. -/
def tenPow (n : Nat) : Nat := Nat.pow 10 n

/-- The number of fractions, which is also the weight of the leading bit of a significand. -/
def fractionCount : Nat := twoPow 52

/-- The number of scales. -/
def scaleCount : Nat := twoPow 11

/-- The weight of the sign bit. -/
def signWeight : Nat := twoPow 63

end TemplateCompiler.Decimal
