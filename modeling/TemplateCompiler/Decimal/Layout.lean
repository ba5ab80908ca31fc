import TemplateCompiler.Decimal.Shortest

/-! # Writing and reading decimals

A double is written with its shortest digits.  Between `10 ^ -4` and `10 ^ 16` the digits are
written positionally and always with a point; otherwise one digit stands before the point and
the power of ten follows.  How the power is written is up to the place where the number is
written: see `Style`.

A decimal is read by rounding it to the nearest double.
-/

namespace TemplateCompiler.Decimal

/-! ## 1. Writing -/

/-- How the power of ten of a number is written. -/
structure Style where
  /-- A plus sign stands before a power that is not negative. -/
  plusSign : Bool
  /-- The power has at least this many digits. -/
  powerDigits : Nat
  deriving DecidableEq, Repr

/-- The digits of a number, with zeros in front up to a width. -/
def padded (width n : Nat) : List Char :=
  let digits := Nat.toDigits 10 n
  List.replicate (width - digits.length) '0' ++ digits

/-- Positional notation: at least one digit stands on either side of the point. -/
def positional (d : Decimal) : List Char :=
  let digits := Nat.toDigits 10 d.digits
  match d.exponent with
  | .ofNat zeros => digits ++ List.replicate zeros '0' ++ ['.', '0']
  | .negSucc k =>
    let padding := List.replicate (k + 2 - digits.length) '0' ++ digits
    let whole := padding.length - (k + 1)
    padding.take whole ++ '.' :: padding.drop whole

/-- One digit before the point, then the power of ten. -/
def scientific (style : Style) (d : Decimal) : List Char :=
  let digits := Nat.toDigits 10 d.digits
  let power := d.exponent + (digits.length - 1 : Nat)
  let mantissa :=
    match digits with
    | first :: second :: rest => first :: '.' :: second :: rest
    | _ => digits
  let sign := if power < 0 then ['-'] else if style.plusSign then ['+'] else []
  mantissa ++ 'e' :: sign ++ padded style.powerDigits power.natAbs

/-- The power of ten of the first digit. -/
def magnitude (d : Decimal) : Int :=
  d.exponent + ((Nat.toDigits 10 d.digits).length - 1 : Nat)

/-- A positive decimal. -/
def write (style : Style) (d : Decimal) : List Char :=
  if -4 ≤ d.magnitude ∧ d.magnitude < 16 then positional d else scientific style d

/-- A finite double. -/
def writeFloat (style : Style) (x : Float) : List Char :=
  let bits := x.toBits.toNat
  let sign := if bits / signWeight = 1 then ['-'] else []
  if bits % signWeight = 0 then sign ++ ['0', '.', '0']
  else sign ++ write style (shortest (Binary.ofBits bits))

/-! ## 2. Reading -/

/-- The double nearest to a decimal, or an infinity if the decimal is too large.  Powers of ten
beyond the range of doubles are not computed. -/
def toFloat (d : Decimal) : Float :=
  let places : Int := d.exponent + (Nat.toDigits 10 d.digits).length
  if d.digits = 0 ∨ places < -340 then 0.0
  else if places > 320 then 1.0 / 0.0
  else
    match d.exponent with
    | .ofNat n => Float.ofScientific d.digits false n
    | .negSucc n => Float.ofScientific d.digits true (n + 1)

end TemplateCompiler.Decimal
