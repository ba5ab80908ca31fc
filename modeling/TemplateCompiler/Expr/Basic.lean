/-! # Expressions

The tree of a template expression.  From loose to tight the operators are `or`, `and`, `not`,
membership and the `is` tests, the binary operators, the signs, filters, and the postfixes.

Binary operators all have one level here.  A chain of operands is kept as it is written, the
first operator innermost: how its parts belong together is decided by whoever evaluates the
chain.  Parentheses are kept for the same reason.
-/

namespace TemplateCompiler

/-- The binary operators. -/
inductive BinOp where
  | eq
  | ne
  | le
  | ge
  | lt
  | gt
  | add
  | sub
  | mul
  | div
  | mod
  /-- Joins the texts of two values. -/
  | concat
  deriving DecidableEq, Repr

/-- Whether an operator compares. -/
def BinOp.isComparison : BinOp → Bool
  | .eq | .ne | .le | .ge | .lt | .gt => true
  | .add | .sub | .mul | .div | .mod | .concat => false

/-- A template expression. -/
inductive Expr where
  /-- A string, after its escapes have been read. -/
  | text (value : List Char)
  /-- An integer.  `plain` says that it was written with digits alone. -/
  | int (value : Nat) (plain : Bool)
  | float (value : Float)
  | bool (value : Bool)
  | null
  | name (name : List Char)
  /-- An expression in parentheses. -/
  | group (inner : Expr)
  /-- A named attribute. -/
  | attr (subject : Expr) (name : List Char)
  /-- An attribute that is a number. -/
  | place (subject : Expr) (index : Nat)
  /-- A subscript. -/
  | item (subject key : Expr)
  | neg (operand : Expr)
  | pos (operand : Expr)
  /-- The `tojson` filter. -/
  | toJson (operand : Expr)
  /-- Any other filter.  Its arguments are not kept. -/
  | filter (operand : Expr) (name : List Char)
  | binary (left : Expr) (op : BinOp) (right : Expr)
  /-- The test `is defined`, or `is undefined` when negated. -/
  | defined (negated : Bool) (subject : Expr)
  /-- The test `in`, or `not in` when negated. -/
  | member (negated : Bool) (item container : Expr)
  | not (operand : Expr)
  | and (left right : Expr)
  | or (left right : Expr)
  deriving DecidableEq, Repr

/-- A lone string, or a lone integer written with digits alone. -/
def Expr.isLoneLiteral : Expr → Bool
  | .text _ => true
  | .int _ plain => plain
  | _ => false

end TemplateCompiler
