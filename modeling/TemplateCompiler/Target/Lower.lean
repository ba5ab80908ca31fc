import TemplateCompiler.Error
import TemplateCompiler.Expr.Read
import TemplateCompiler.Target.Code

/-! # From template expressions to generated expressions

Each construct of the template language has one counterpart, so lowering is total.  Where a value
is wanted the lowered expression is converted to one, whatever it computes; `and`, `or` and
`not` work on truth values and ask for the truth of their operands.

What a name means depends on the names in scope: a name bound by a loop is looked up among the
assignments first, a field of the input is read from the input, and any other name is an
assignment or undefined.
-/

namespace TemplateCompiler.Target

/-- The names that mean something at one place of a template. -/
structure Scope where
  /-- The fields of the renderer's input. -/
  fields : List (List Char)
  /-- The names bound by the loops around the place. -/
  bound : List (List Char)
  deriving DecidableEq, Repr

/-- What a name means. -/
def Scope.resolve (scope : Scope) (name : List Char) : Code :=
  if scope.bound.contains name then .bound name
  else if scope.fields.contains name then .field name
  else .free name

/-- A truth value, negated or not. -/
def negateIf (negated : Bool) (c : Code) : Code := if negated then .not c else c

/-- The truth of an expression's value. -/
def truthOf (c : Code) : Code := .truthy (.convert c)

/-- The generated expression for an expression.  A chain of one boolean operator is flat: its
earlier part needs no conversion. -/
def lower (scope : Scope) : Expr → Code
  | .text value => .text value
  | .int value _ => .int value
  | .float value => .float value
  | .bool value => .bool value
  | .null => .null
  | .name name => scope.resolve name
  | .group inner => .convert (lower scope inner)
  | .attr subject name => .prop (lower scope subject) name
  | .place subject index => .index (lower scope subject) (.int index)
  | .item subject key =>
    .index (lower scope subject)
      (if key.isLoneLiteral then lower scope key else .convert (lower scope key))
  | .neg operand => .neg (lower scope operand)
  | .pos operand => lower scope operand
  | .toJson operand => .toJson (.convert (lower scope operand))
  | .filter operand name => .stringify name (.convert (lower scope operand))
  | .binary left op right => .binary (lower scope left) op (lower scope right)
  | .defined negated subject => negateIf negated (.isDefined (.convert (lower scope subject)))
  | .member negated item container =>
    negateIf negated (.contains (.convert (lower scope container)) (.convert (lower scope item)))
  | .not operand => .not (truthOf (lower scope operand))
  | .and left right =>
    let earlier := lower scope left
    .and (match left with | .and .. => earlier | _ => truthOf earlier) (truthOf (lower scope right))
  | .or left right =>
    let earlier := lower scope left
    .or (match left with | .or .. => earlier | _ => truthOf earlier) (truthOf (lower scope right))

/-- Reads an expression and lowers it. -/
def compileExpr (scope : Scope) (expr : List Char) : Except Error Code :=
  match Expr.read expr with
  | .ok e => .ok (lower scope e)
  | .error r => .error (.unsupportedExpr r.expr r.fault none)

end TemplateCompiler.Target
