import TemplateCompiler.Decimal.Power

/-! # The shortest decimal of a double

A finite double other than zero is an integer times a power of two.  The reals that round to it
form an interval, whose ends belong to it when the integer is even.  The shortest decimal of the
double is the decimal in that interval with the fewest digits; of two with as few, the nearer to
the double, and of two as near, the larger.

Decimals with few digits lie on coarse grids: multiples of a high power of ten.  The search
starts on a grid that is too coarse for any hit and goes from each grid to the next finer one.
On a grid, only the two neighbours of the double can be the nearest, so only they are tried.
All comparisons are between natural numbers.
-/

namespace TemplateCompiler

/-! ## 1. Decimals and doubles as exact numbers -/

/-- The number `digits * 10 ^ exponent`. -/
structure Decimal where
  digits : Nat
  exponent : Int
  deriving DecidableEq, Repr

namespace Decimal

/-- A positive number `significand * 2 ^ exponent`, and the place of the next smaller double. -/
structure Binary where
  significand : Nat
  exponent : Int
  /-- The next smaller double is only half as far away as the next larger one. -/
  closeBelow : Bool
  deriving DecidableEq, Repr

/-- The magnitude that the bits of a finite double stand for. -/
def Binary.ofBits (bits : Nat) : Binary :=
  let fraction := bits % fractionCount
  let scale : Nat := bits / fractionCount % scaleCount
  if scale = 0 then { significand := fraction, exponent := -1074, closeBelow := false }
  else
    { significand := fractionCount + fraction, exponent := (scale : Int) - 1075
      closeBelow := fraction = 0 && scale > 1 }

/-! ## 2. Grids -/

/-- The interval of a double, measured on one decimal grid: all four numbers are in the same
unit, and the grid's points are the multiples of `step`. -/
structure Grid where
  low : Nat
  value : Nat
  high : Nat
  step : Nat
  /-- The ends of the interval belong to it. -/
  closed : Bool

/-- The interval of `b` on the grid of multiples of `10 ^ p`. -/
def Grid.of (b : Binary) (p : Int) : Grid :=
  -- quarters of the last binary place, so that the ends of the interval are integers
  let scale := twoPow (b.exponent - 2).toNat * tenPow (-p).toNat
  { low := (4 * b.significand - if b.closeBelow then 1 else 2) * scale
    value := 4 * b.significand * scale
    high := (4 * b.significand + 2) * scale
    step := tenPow p.toNat * twoPow (2 - b.exponent).toNat
    closed := b.significand % 2 = 0 }

/-- Whether a point of the grid lies in the interval. -/
def Grid.holds (g : Grid) (d : Nat) : Bool :=
  if g.closed then g.low ≤ d * g.step && d * g.step ≤ g.high
  else g.low < d * g.step && d * g.step < g.high

/-- The neighbour of the value that is in the interval, the nearer one if both are, and the
larger one if both are as near. -/
def Grid.nearest? (g : Grid) : Option Nat :=
  let below := g.value / g.step
  match g.holds below, g.holds (below + 1) with
  | true, true =>
    if g.value - below * g.step < (below + 1) * g.step - g.value then some below
    else some (below + 1)
  | true, false => some below
  | false, true => some (below + 1)
  | false, false => none

/-- The first hit on the grids of `10 ^ p`, `10 ^ (p - 1)` and so on. -/
def searchGrids (b : Binary) : Nat → Int → Decimal
  | 0, p => { digits := 0, exponent := p }
  | n + 1, p =>
    match (Grid.of b p).nearest? with
    | some digits => { digits, exponent := p }
    | none => searchGrids b n (p - 1)

/-- An exponent of ten whose grid is too coarse or just coarse enough for a hit.  The decimal
logarithm of two is about 1233/4096, and the quotient is at most one below the exponent of the
first digit. -/
def coarsest (b : Binary) : Int :=
  (((b.significand.log2 : Int) + b.exponent) * 1233).fdiv 4096 + 2

/-- The shortest decimal.  Seventeen digits always suffice, so some grid among the first twenty
has a hit. -/
def shortest (b : Binary) : Decimal := searchGrids b 22 (coarsest b)

end Decimal

end TemplateCompiler
