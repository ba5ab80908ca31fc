/-! # What can be wrong with an expression

One constructor per cause, and the wording of each in `Fault.message`.  Causes that name a
piece of the expression carry it.
-/

namespace TemplateCompiler.Reading

/-- Why an expression is refused. -/
inductive Fault where
  /-- Nothing but blanks. -/
  | empty
  /-- A boolean operator with nothing on one side. -/
  | missingBooleanOperand
  /-- A membership test with nothing on one side. -/
  | missingMembershipOperand
  /-- A test other than `defined` and `undefined`. -/
  | unsupportedTest (name : List Char)
  /-- Two comparisons in one chain. -/
  | chainedComparisons
  /-- The text ends where an operand should stand. -/
  | expectedOperand
  | unterminatedString
  /-- A decimal fraction beyond the largest double. -/
  | invalidNumber (literal : List Char)
  /-- An integer beyond 64 bits. -/
  | integerOutOfRange (literal : List Char)
  | listLiteral
  | dictLiteral
  | unexpectedCharacter (c : Char)
  | unexpectedKeyword (word : List Char)
  /-- A name followed by an argument list. -/
  | call (name : List Char)
  /-- An attribute followed by an argument list. -/
  | methodCall (name : List Char)
  /-- Anything else followed by an argument list. -/
  | callOfValue
  | unbalancedParenthesis
  | unbalancedBracket
  | emptyParentheses
  | emptySubscript
  | tuple
  | slice
  /-- A dot that no name follows. -/
  | expectedAttribute
  /-- A numeric attribute beyond 64 bits. -/
  | indexOutOfRange
  | expectedFilterName
  | toJsonArguments
  | floorDivision
  | exponentiation
  /-- A name where an operator should stand. -/
  | expectedOperatorBefore (word : List Char)
  /-- A comma where an operator should stand. -/
  | argumentList
  /-- A colon where an operator should stand. -/
  | sliceOrDict
  /-- An assignment to one of the renderer's inputs. -/
  | rebindsContextField
  /-- A context field whose name is no identifier. -/
  | fieldNotIdentifier
  deriving DecidableEq, Repr

/-- A text between single quotation marks. -/
private def quoted (cs : List Char) : String := "'" ++ String.ofList cs ++ "'"

/-- The wording of each cause. -/
def Fault.message : Fault → String
  | .empty => "empty expression"
  | .missingBooleanOperand => "missing operand for boolean operator"
  | .missingMembershipOperand => "membership test needs both operands"
  | .unsupportedTest name => "unsupported test " ++ quoted name
  | .chainedComparisons => "chained comparisons are not supported"
  | .expectedOperand => "expected an operand"
  | .unterminatedString => "unterminated string literal"
  | .invalidNumber literal => "invalid number " ++ quoted literal
  | .integerOutOfRange literal => "integer " ++ quoted literal ++ " is out of range"
  | .listLiteral => "list literals are not supported"
  | .dictLiteral => "dict literals are not supported"
  | .unexpectedCharacter c => "unexpected character " ++ quoted [c]
  | .unexpectedKeyword word => "unexpected keyword " ++ quoted word
  | .call name => "call to " ++ quoted name ++ " is not supported"
  | .methodCall name => "method call " ++ quoted name ++ " is not supported"
  | .callOfValue => "calls are not supported"
  | .unbalancedParenthesis => "unbalanced parenthesis"
  | .unbalancedBracket => "unbalanced '['"
  | .emptyParentheses => "empty parentheses"
  | .emptySubscript => "empty subscript"
  | .tuple => "tuples are not supported"
  | .slice => "slices are not supported"
  | .expectedAttribute => "expected a name after '.'"
  | .indexOutOfRange => "index out of range"
  | .expectedFilterName => "expected a filter name after '|'"
  | .toJsonArguments => "tojson arguments are not supported"
  | .floorDivision => "floor division is not supported"
  | .exponentiation => "exponentiation is not supported"
  | .expectedOperatorBefore word => "expected an operator before " ++ quoted word
  | .argumentList => "tuples and argument lists are not supported"
  | .sliceOrDict => "slices and dict literals are not supported"
  | .rebindsContextField => "cannot rebind a context field"
  | .fieldNotIdentifier => "context field names must be identifiers"

/-- A refused expression: the text to blame and what is wrong with it.  The text is the whole
expression or the part of it that is at fault. -/
structure Refusal where
  expr : List Char
  fault : Fault
  deriving DecidableEq, Repr

end TemplateCompiler.Reading
