import Mathlib.Algebra.Group.Nat.Defs
import TemplateCompiler.Proofs.Target.Spelling
import TemplateCompiler.Proofs.Text.Balanced
import TemplateCompiler.Proofs.Text.Digits
import TemplateCompiler.Target.Lower

/-! # Phrases

A phrase is an expression together with the way it is written: which quotation marks, which
escapes, which spelling of a constant.  Phrases are built by rank, from tight to loose, so that
every phrase can be written without adding parentheses:

* a *primary* phrase is a literal, a constant, a name, a phrase in parentheses, or a primary
  phrase with an attribute or a subscript;
* a *signed* phrase has signs in front, and an *operand* has filters behind;
* a *chain* joins operands by binary operators, one of which may compare;
* a *test* asks for membership or for a definition, and its operands do not compare;
* then come negations, conjunctions and disjunctions.

`Phrase.print` writes a phrase with one blank around operators, keywords and bars,
`Phrase.expr` is the expression it stands for, and `Phrase.code` is the text of the generated
expression, construct by construct.  Numbers, texts and names are spelled there as the generated
language has them (`plainDigits`, `literalText`, `bindingText`).
-/

namespace TemplateCompiler

open Text

/-! ## 1. Words and literals -/

/-- The escapes of a string literal. -/
inductive Escape where
  | lineFeed
  | tab
  | carriageReturn
  | backslash
  | singleQuote
  | doubleQuote
  deriving DecidableEq, Repr

/-- The character after the backslash. -/
def Escape.letter : Escape → Char
  | .lineFeed => 'n'
  | .tab => 't'
  | .carriageReturn => 'r'
  | .backslash => '\\'
  | .singleQuote => '\''
  | .doubleQuote => '"'

/-- The character that is meant. -/
def Escape.value : Escape → Char
  | .lineFeed => '\n'
  | .tab => '\t'
  | .carriageReturn => '\r'
  | .backslash => '\\'
  | .singleQuote => '\''
  | .doubleQuote => '"'

/-- A piece of a string literal between the marks `q`. -/
inductive Piece (q : Char) where
  | raw (c : Char) (hq : c ≠ q) (hb : c ≠ '\\')
  | escape (e : Escape)

/-- The piece as it is written. -/
def Piece.print {q : Char} : Piece q → List Char
  | .raw c _ _ => [c]
  | .escape e => ['\\', e.letter]

/-- The character that the piece stands for. -/
def Piece.value {q : Char} : Piece q → Char
  | .raw c _ _ => c
  | .escape e => e.value

/-- The constants, with their spellings. -/
inductive Constant where
  | yes (capital : Bool)
  | no (capital : Bool)
  | nothing (capital : Bool)
  deriving DecidableEq, Repr

/-- The constant as it is written. -/
def Constant.print : Constant → List Char
  | .yes capital => (if capital then "True" else "true").toList
  | .no capital => (if capital then "False" else "false").toList
  | .nothing capital => (if capital then "None" else "none").toList

/-- The constant as an expression. -/
def Constant.expr : Constant → Expr
  | .yes _ => .bool true
  | .no _ => .bool false
  | .nothing _ => .null

/-- The keywords of expressions. -/
def languageWords : List (List Char) :=
  ["and".toList, "or".toList, "not".toList, "in".toList, "is".toList, "if".toList, "else".toList]

/-- The words that stand for constants. -/
def constantWords : List (List Char) :=
  ["true".toList, "True".toList, "false".toList, "False".toList, "none".toList, "None".toList]

/-- A name that is neither a keyword nor a constant. -/
structure IsVariable (name : List Char) : Prop where
  isIdentifier : isIdentifier name = true
  not_keyword : name ∉ languageWords
  not_constant : name ∉ constantWords

/-- What may follow a bar: a name that is no keyword, and perhaps arguments in parentheses.  The
arguments are a text, since nothing reads them; `tojson` has none. -/
structure Filter where
  name : List Char
  arguments : Option (List Char)
  isIdentifier_name : isIdentifier name = true
  name_not_keyword : name ∉ languageWords
  balanced_arguments : ∀ a ∈ arguments, Balanced (fun _ => True) a
  arguments_toJson : name = "tojson".toList → arguments = none

/-- The arguments in their parentheses. -/
def Filter.argumentText (f : Filter) : List Char :=
  match f.arguments with
  | none => []
  | some a => '(' :: (a ++ [')'])

/-- The filter as it is written. -/
def Filter.print (f : Filter) : List Char := f.name ++ f.argumentText

/-- A filter applied to an expression. -/
def Filter.apply (f : Filter) (e : Expr) : Expr :=
  if f.name = "tojson".toList then .toJson e else .filter e f.name

/-- Digits that spell an integer of 63 bits. -/
structure IsInteger (ds : List Char) : Prop where
  digits : Digits ds
  value_lt : decimalValue ds < 2 ^ 63

/-- The operators of which a chain has one at most. -/
def comparisons : List BinOp := [.eq, .ne, .lt, .le, .gt, .ge]

/-! ## 2. Phrases -/

/-- How tightly a phrase binds. -/
inductive Rank where
  | primary
  | signed
  | operand
  | chain (compares : Bool)
  | test
  | negation
  | conjunction
  | disjunction
  deriving DecidableEq, Repr

/-- A phrase of one rank may stand for a phrase of the next looser one. -/
inductive Rank.Under : Rank → Rank → Prop
  | primary : Under .primary .signed
  | signed : Under .signed .operand
  | operand : Under .operand (.chain false)
  | chain (compares : Bool) : Under (.chain compares) .test
  | test : Under .test .negation
  | negation : Under .negation .conjunction
  | conjunction : Under .conjunction .disjunction

/-- A phrase of a rank. -/
inductive Phrase : Rank → Type where
  | text (q : Char) (hq : isQuote q = true) (pieces : List (Piece q)) : Phrase .primary
  | int (digits : List Char) (h : IsInteger digits) : Phrase .primary
  | constant (c : Constant) : Phrase .primary
  | name (n : List Char) (h : IsVariable n) : Phrase .primary
  | group (inner : Phrase .disjunction) : Phrase .primary
  | attr (subject : Phrase .primary) (n : List Char) (h : isIdentifier n = true) : Phrase .primary
  | item (subject : Phrase .primary) (key : Phrase .disjunction) : Phrase .primary
  /-- A sign, negative or not. -/
  | sign (negative : Bool) (operand : Phrase .signed) : Phrase .signed
  | filter (operand : Phrase .operand) (f : Filter) : Phrase .operand
  | arith {compares : Bool} (left : Phrase (.chain compares)) (op : BinOp)
      (h : op ∉ comparisons) (right : Phrase .operand) : Phrase (.chain compares)
  | compare (left : Phrase (.chain false)) (op : BinOp) (h : op ∈ comparisons)
      (right : Phrase .operand) : Phrase (.chain true)
  | member (negated : Bool) (element container : Phrase (.chain false)) : Phrase .test
  /-- `is defined` or `is undefined`, with a `not` or without. -/
  | defined (subject : Phrase (.chain false)) (negated undefined : Bool) : Phrase .test
  | not (operand : Phrase .negation) : Phrase .negation
  | and (left : Phrase .conjunction) (right : Phrase .negation) : Phrase .conjunction
  | or (left : Phrase .disjunction) (right : Phrase .conjunction) : Phrase .disjunction
  | lift {r r' : Rank} (h : r.Under r') (inner : Phrase r) : Phrase r'

/-- How the operators are written. -/
def BinOp.symbol : BinOp → List Char
  | .eq => "==".toList
  | .ne => "!=".toList
  | .le => "<=".toList
  | .ge => ">=".toList
  | .lt => "<".toList
  | .gt => ">".toList
  | .add => "+".toList
  | .sub => "-".toList
  | .mul => "*".toList
  | .div => "/".toList
  | .mod => "%".toList
  | .concat => "~".toList

/-- Two texts with a word and two blanks between them. -/
def spaced (left word right : List Char) : List Char := left ++ ' ' :: (word ++ ' ' :: right)

/-- The phrase as it is written. -/
@[simp] def Phrase.print : {r : Rank} → Phrase r → List Char
  | _, .text q _ pieces => q :: (pieces.flatMap Piece.print ++ [q])
  | _, .int digits _ => digits
  | _, .constant c => c.print
  | _, .name n _ => n
  | _, .group inner => '(' :: (inner.print ++ [')'])
  | _, .attr subject n _ => subject.print ++ '.' :: n
  | _, .item subject key => subject.print ++ '[' :: (key.print ++ [']'])
  | _, .sign negative operand => (if negative then '-' else '+') :: operand.print
  | _, .filter operand f => spaced operand.print ['|'] f.print
  | _, .arith left op _ right => spaced left.print op.symbol right.print
  | _, .compare left op _ right => spaced left.print op.symbol right.print
  | _, .member negated element container =>
    spaced element.print (if negated then "not in" else "in").toList container.print
  | _, .defined subject negated undefined =>
    spaced subject.print (if negated then "is not" else "is").toList
      (if undefined then "undefined" else "defined").toList
  | _, .not operand => "not".toList ++ ' ' :: operand.print
  | _, .and left right => spaced left.print "and".toList right.print
  | _, .or left right => spaced left.print "or".toList right.print
  | _, .lift _ inner => inner.print

/-- The expression that a phrase stands for. -/
@[simp] def Phrase.expr : {r : Rank} → Phrase r → Expr
  | _, .text _ _ pieces => .text (pieces.map Piece.value)
  | _, .int digits _ => .int (decimalValue digits) true
  | _, .constant c => c.expr
  | _, .name n _ => .name n
  | _, .group inner => .group inner.expr
  | _, .attr subject n _ => .attr subject.expr n
  | _, .item subject key => .item subject.expr key.expr
  | _, .sign negative operand => if negative then .neg operand.expr else .pos operand.expr
  | _, .filter operand f => f.apply operand.expr
  | _, .arith left op _ right => .binary left.expr op right.expr
  | _, .compare left op _ right => .binary left.expr op right.expr
  | _, .member negated element container => .member negated element.expr container.expr
  | _, .defined subject negated undefined => .defined (negated != undefined) subject.expr
  | _, .not operand => .not operand.expr
  | _, .and left right => .and left.expr right.expr
  | _, .or left right => .or left.expr right.expr
  | _, .lift _ inner => inner.expr

/-! ## 3. The generated text, construct by construct -/

/-- Whether a phrase is nothing but a string or an integer. -/
def Phrase.isLiteral : {r : Rank} → Phrase r → Bool
  | _, .text .. => true
  | _, .int .. => true
  | _, .lift _ inner => inner.isLiteral
  | _, _ => false

/-- Whether a phrase is joined from several by `and` or `or`. -/
def Phrase.isJoined : {r : Rank} → Phrase r → Bool
  | _, .and .. => true
  | _, .or .. => true
  | _, _ => false

/-- Any result as a value. -/
def valueText (cs : List Char) : List Char := "Value::from(".toList ++ cs ++ ")".toList

/-- The truth of any result. -/
def truthText (cs : List Char) : List Char := "truthy(&".toList ++ valueText cs ++ ")".toList

/-- A name: bound by a loop, a field of the input, or anything else. -/
def nameText (scope : Target.Scope) (n : List Char) : List Char :=
  if n ∈ scope.bound then
    "get_var(&__locals, ".toList ++ Target.literalText n ++ ", &".toList ++
      Target.bindingText n ++ ")".toList
  else if n ∈ scope.fields then "context.".toList ++ Target.bindingText n ++ ".clone()".toList
  else "get_var(&__locals, ".toList ++ Target.literalText n ++ ", &Value::Undefined)".toList

/-- The generated operators: joining texts is the only one with a sign of its own. -/
def BinOp.targetSymbol (op : BinOp) : List Char := if op = .concat then ['^'] else op.symbol

/-- The generated text for a phrase. -/
def Phrase.code (scope : Target.Scope) : {r : Rank} → Phrase r → List Char
  | _, .text _ _ pieces => valueText (Target.literalText (pieces.map Piece.value))
  | _, .int digits _ => "Value::Int(".toList ++ plainDigits digits ++ ")".toList
  | _, .constant (.yes _) => "Value::Bool(true)".toList
  | _, .constant (.no _) => "Value::Bool(false)".toList
  | _, .constant (.nothing _) => "Value::Null".toList
  | _, .name n _ => nameText scope n
  | _, .group inner => valueText (inner.code scope)
  | _, .attr subject n _ =>
    "get_prop(&".toList ++ subject.code scope ++ ", ".toList ++ Target.literalText n ++ ")".toList
  | _, .item subject key =>
    "get_index(&".toList ++ subject.code scope ++ ", &".toList ++
      (if key.isLiteral then key.code scope else valueText (key.code scope)) ++ ")".toList
  | _, .sign negative operand =>
    if negative then '-' :: operand.code scope else operand.code scope
  | _, .filter operand f =>
    if f.name = "tojson".toList then "to_json(&".toList ++ valueText (operand.code scope) ++ ")".toList
    else
      "/* unsupported filter: ".toList ++ f.name ++ " */ Value::from(to_string_safe(&".toList ++
        valueText (operand.code scope) ++ "))".toList
  | _, .arith left op _ right => spaced (left.code scope) op.targetSymbol (right.code scope)
  | _, .compare left op _ right => spaced (left.code scope) op.targetSymbol (right.code scope)
  | _, .member negated element container =>
    (if negated then ['!'] else []) ++ "contains(&".toList ++ valueText (container.code scope) ++
      ", &".toList ++ valueText (element.code scope) ++ ")".toList
  | _, .defined subject negated undefined =>
    (if negated != undefined then ['!'] else []) ++ "is_defined(&".toList ++
      valueText (subject.code scope) ++ ")".toList
  | _, .not operand => '!' :: truthText (operand.code scope)
  | _, .and left right =>
    spaced (if left.isJoined then left.code scope else truthText (left.code scope)) "&&".toList
      (truthText (right.code scope))
  | _, .or left right =>
    spaced (if left.isJoined then left.code scope else truthText (left.code scope)) "||".toList
      (truthText (right.code scope))
  | _, .lift _ inner => inner.code scope

end TemplateCompiler
