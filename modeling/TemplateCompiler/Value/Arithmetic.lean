import TemplateCompiler.Decimal.Remainder
import TemplateCompiler.Value.Print

/-! # Arithmetic of values

Integers are added, subtracted and multiplied exactly; a result that does not fit in 64 bits is
computed as a double instead.  Division always gives a double.  The remainder has the sign of the
divisor.  An operation that makes no sense for its operands gives the missing value.

Texts can be joined to anything by `+` and repeated by an integer; lists can be joined by `+`.
-/

namespace TemplateCompiler.Value

/-- An operation on numbers, on integers first and on doubles where that does not do. -/
def arithmetic (onInts : Int → Int → Int) (onFloats : Float → Float → Float)
    (a b : Value) : Value :=
  let asFloats : Value :=
    match asFloat? a, asFloat? b with
    | some x, some y => .float (onFloats x y)
    | _, _ => .undefined
  match asInt? a, asInt? b with
  | some m, some n =>
    match fitInt? (onInts m.toInt n.toInt) with
    | some r => .int r
    | none => asFloats
  | _, _ => asFloats

/-- The texts of two values, one after the other. -/
def concat (a b : Value) : Value := .text (a.display ++ b.display)

/-- Sum: lists are joined, and a text is joined to the text of anything. -/
def add : Value → Value → Value
  | .list xs, .list ys => .list (xs ++ ys)
  | .text s, b => concat (.text s) b
  | a, .text t => concat a (.text t)
  | a, b => arithmetic (· + ·) (· + ·) a b

/-- Difference. -/
def sub (a b : Value) : Value := arithmetic (· - ·) (· - ·) a b

/-- A text several times, and not at all for a negative number. -/
def repeated (s : List Char) (n : Int64) : Value :=
  if s.isEmpty then .text [] else .text (List.replicate n.toInt.toNat s).flatten

/-- Product: a text is repeated by an integer. -/
def mul : Value → Value → Value
  | .text s, .int n => repeated s n
  | .int n, .text s => repeated s n
  | a, b => arithmetic (· * ·) (· * ·) a b

/-- Quotient, as a double. -/
def div (a b : Value) : Value :=
  match asFloat? a, asFloat? b with
  | some x, some y => if y == 0.0 then .undefined else .float (x / y)
  | _, _ => .undefined

/-- Remainder of integers, with the sign of the divisor.  There is none for a zero divisor, nor
where the quotient does not fit in 64 bits. -/
def modInt (m n : Int64) : Value :=
  if n.toInt = 0 ∨ (fitInt? (m.toInt.tdiv n.toInt)).isNone then .undefined
  else
    let r := m.toInt.tmod n.toInt
    if r ≠ 0 ∧ (r < 0) ≠ (n.toInt < 0) then .int (Int64.ofInt (r + n.toInt))
    else .int (Int64.ofInt r)

/-- Remainder of doubles, with the sign of the divisor. -/
def modFloat (x y : Float) : Value :=
  if y == 0.0 then .undefined
  else
    let r := Decimal.remainder x y
    if r != 0.0 && (decide (r < 0.0) != decide (y < 0.0)) then .float (r + y) else .float r

/-- Remainder. -/
def mod (a b : Value) : Value :=
  match asInt? a, asInt? b with
  | some m, some n => modInt m n
  | _, _ =>
    match asFloat? a, asFloat? b with
    | some x, some y => modFloat x y
    | _, _ => .undefined

/-- Negation. -/
def neg : Value → Value
  | .float x => .float (-x)
  | v =>
    match asInt? v with
    | some n =>
      match fitInt? (-n.toInt) with
      | some r => .int r
      | none => .float (-(intFloat n))
    | none => .undefined

end TemplateCompiler.Value
