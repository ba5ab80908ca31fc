import TemplateCompiler.Decimal.Layout
import TemplateCompiler.Expr.Basic
import TemplateCompiler.Target.Ident
import TemplateCompiler.Target.Quoted

/-! # Generated expressions

The tree of a generated Rust expression.  Two kinds of thing are computed: values, of the
prelude's type `Value`, and truth values.  `Code.convert` makes a value of either.

`Code.print` writes the tree.  Function calls delimit their arguments; operators are written in
the order of the tree and without parentheses.  A chain of binary operators is therefore read
with Rust's precedence, and the tree says only in which order its operands stand.
-/

namespace TemplateCompiler.Target

/-! ## 1. Trees -/

/-- A generated expression. -/
inductive Code where
  | text (value : List Char)
  | int (value : Nat)
  | float (value : Float)
  | bool (value : Bool)
  | null
  /-- A name that a loop binds: an assignment of the same name goes first. -/
  | bound (name : List Char)
  /-- A field of the renderer's input. -/
  | field (name : List Char)
  /-- Any other name: an assignment, or nothing. -/
  | free (name : List Char)
  /-- The value of a value or of a truth value. -/
  | convert (inner : Code)
  | prop (subject : Code) (name : List Char)
  | index (subject key : Code)
  | toJson (operand : Code)
  /-- The text of a value, in place of a filter that has no counterpart. -/
  | stringify (filter : List Char) (operand : Code)
  | neg (operand : Code)
  | binary (left : Code) (op : BinOp) (right : Code)
  | truthy (operand : Code)
  | isDefined (operand : Code)
  | contains (container item : Code)
  | not (operand : Code)
  | and (left right : Code)
  | or (left right : Code)
  deriving DecidableEq, Repr

/-! ## 2. Printing -/

/-- How the operators are written in Rust. -/
def operatorText : BinOp → List Char
  | .eq => "==".toList
  | .ne => "!=".toList
  | .le => "<=".toList
  | .ge => ">=".toList
  | .lt => "<".toList
  | .gt => ">".toList
  | .add => "+".toList
  | .sub => "-".toList
  | .mul => "*".toList
  | .div => "/".toList
  | .mod => "%".toList
  | .concat => "^".toList

/-- Numbers in generated code have no plus sign and no padding in their power of ten. -/
def floatStyle : Decimal.Style := { plusSign := false, powerDigits := 1 }

/-- A call of a function with arguments already written. -/
def call (function : String) (arguments : List Char) : List Char :=
  function.toList ++ '(' :: arguments ++ [')']

/-- Writes an expression. -/
def Code.print : Code → List Char
  | .text value => call "Value::from" (quote value)
  | .int value => call "Value::Int" (Nat.toDigits 10 value)
  | .float value => call "Value::Float" (Decimal.writeFloat floatStyle value)
  | .bool value => call "Value::Bool" (if value then "true".toList else "false".toList)
  | .null => "Value::Null".toList
  | .bound name =>
    call "get_var" ("&__locals, ".toList ++ quote name ++ ", &".toList ++ bindingName name)
  | .field name => "context.".toList ++ bindingName name ++ ".clone()".toList
  | .free name =>
    call "get_var" ("&__locals, ".toList ++ quote name ++ ", &Value::Undefined".toList)
  | .convert inner => call "Value::from" inner.print
  | .prop subject name => call "get_prop" ('&' :: subject.print ++ ", ".toList ++ quote name)
  | .index subject key => call "get_index" ('&' :: subject.print ++ ", &".toList ++ key.print)
  | .toJson operand => call "to_json" ('&' :: operand.print)
  | .stringify filter operand =>
    "/* unsupported filter: ".toList ++ filter ++ " */ ".toList ++
      call "Value::from" (call "to_string_safe" ('&' :: operand.print))
  | .neg operand => '-' :: operand.print
  | .binary left op right => left.print ++ ' ' :: operatorText op ++ ' ' :: right.print
  | .truthy operand => call "truthy" ('&' :: operand.print)
  | .isDefined operand => call "is_defined" ('&' :: operand.print)
  | .contains container item =>
    call "contains" ('&' :: container.print ++ ", &".toList ++ item.print)
  | .not operand => '!' :: operand.print
  | .and left right => left.print ++ " && ".toList ++ right.print
  | .or left right => left.print ++ " || ".toList ++ right.print

end TemplateCompiler.Target
