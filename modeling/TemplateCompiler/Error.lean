import TemplateCompiler.Text.Position
import TemplateCompiler.Template.Segment
import TemplateCompiler.Template.Keyword
import TemplateCompiler.Expr.Fault

/-! # Why a template does not compile

Every failure of the compiler is one constructor of `Error`; `Error.message` words it.  All
but two carry the position of the tag to blame: the end of the template has no tag, and an
expression read on its own has none either.  `Error.locatedAt` gives such an expression the
position of the tag it was taken from.
-/

namespace TemplateCompiler

open Text Template

/-- What is wrong with a tag whose first word is known. -/
inductive TagFault where
  /-- An output tag with nothing in it. -/
  | emptyOutput
  | missingCondition
  /-- A loop without its `in`. -/
  | forForm
  | loopVariable
  | missingIterable
  /-- An assignment without its equals sign. -/
  | setForm
  | assignmentTarget
  | missingValue
  deriving DecidableEq, Repr

/-- The wording of each fault. -/
def TagFault.message : TagFault → String
  | .emptyOutput => "empty output expression"
  | .missingCondition => "missing condition"
  | .forForm => "expected 'for <name> in <iterable>'"
  | .loopVariable => "loop variable must be a single identifier"
  | .missingIterable => "missing iterable expression"
  | .setForm => "expected 'set <name> = <expression>'"
  | .assignmentTarget => "assignment target must be a single identifier"
  | .missingValue => "missing value expression"

/-- Why a template does not compile. -/
inductive Error where
  /-- A block that is never closed. -/
  | unclosed (delimiter : Delimiter) (position : Position)
  /-- A tag whose first word is not a keyword. -/
  | unsupportedTag (head tag : List Char) (position : Position)
  | malformedTag (tag : List Char) (fault : TagFault) (position : Position)
  /-- The template ends inside a block, which one of these would continue. -/
  | unexpectedEnd (expected : List Keyword)
  /-- A closing tag that does not belong to the innermost block.  Outside every block nothing
  is expected. -/
  | mismatchedTag (expected : List Keyword) (found : Keyword) (position : Position)
  | unsupportedExpr (expr : List Char) (fault : Reading.Fault) (position : Option Position)
  /-- A whole template as a node of another. -/
  | nestedTemplate
  deriving DecidableEq, Repr

/-- The words of some keywords, with a text between each two. -/
private def listed (between : String) (ks : List Keyword) : String :=
  between.intercalate (ks.map fun k => String.ofList k.word)

/-- The wording of each error. -/
def Error.message : Error → String
  | .unclosed d p => "Unterminated '" ++ String.ofList d.opening ++ "' starting at " ++ p.display
  | .unsupportedTag head tag p =>
    "Unsupported tag '" ++ String.ofList head ++ "' at " ++ p.display ++ ": '" ++
      String.ofList tag ++ "'"
  | .malformedTag tag fault p =>
    "Malformed tag at " ++ p.display ++ ": " ++ fault.message ++ ": '" ++ String.ofList tag ++ "'"
  | .unexpectedEnd expected =>
    "Unexpected end of template; expected one of: " ++ listed ", " expected
  | .mismatchedTag expected found p =>
    "Unexpected '" ++ String.ofList found.word ++ "' at " ++ p.display ++ "; expected " ++
      if expected.isEmpty then "a statement" else listed " or " expected
  | .unsupportedExpr expr fault p =>
    "Unsupported expression '" ++ String.ofList expr ++ "'" ++
      (match p with
        | some p => " at " ++ p.display
        | none => "") ++
      ": " ++ fault.message
  | .nestedTemplate => "Node kind not supported by the code generator: root"

/-- Gives an expression's error the position of its tag.  An error that has one keeps it. -/
def Error.locatedAt (p : Position) : Error → Error
  | .unsupportedExpr expr fault none => .unsupportedExpr expr fault (some p)
  | e => e

end TemplateCompiler
