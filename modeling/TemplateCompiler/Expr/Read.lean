import TemplateCompiler.Text.Identifier
import TemplateCompiler.Text.Outline
import TemplateCompiler.Decimal.Layout
import TemplateCompiler.Expr.Fault
import TemplateCompiler.Expr.Basic

/-! # Reading an expression

An expression is cut at its top-level words first: at an `is` test if no looser word is there,
then at `or`, `and`, a leading `not` and `in`.  What is left is a chain of operands and binary
operators, which is read from left to right.  Parentheses and subscripts hold expressions of
their own; they are read when they are reached, so the first fault in the text is the one that
is reported, and it is reported with the innermost text that is at fault.

The functions below take the reader of the inner expressions as an argument.  `Expr.read` ties
the knot: every inner text is shorter than the text it is taken from.
-/

namespace TemplateCompiler

namespace Reading

open Text

/-! ## 1. Literals -/

/-- The characters that a backslash and `c` stand for.  An unknown escape keeps its backslash. -/
def unescape (c : Char) : List Char :=
  if c = 'n' then ['\n']
  else if c = 't' then ['\t']
  else if c = 'r' then ['\r']
  else if c = '\\' ∨ c = '\'' ∨ c = '"' then [c]
  else ['\\', c]

/-- The value of a string literal, from after its first quotation mark, and the text after
it. -/
def stringBody? (quote : Char) : List Char → Option (List Char × List Char)
  | [] => none
  | c :: rest =>
    if c = '\\' then
      match rest with
      | [] => none
      | d :: rest => (stringBody? quote rest).map fun (value, rest) => (unescape d ++ value, rest)
    else if c = quote then some ([], rest)
    else (stringBody? quote rest).map fun (value, rest) => (c :: value, rest)

/-- A digit, or an underscore between digits. -/
def isDigitOrUnderscore (c : Char) : Bool := c.isDigit || c == '_'

/-- The fraction of a number: a point and, right after it, a digit. -/
def fraction? : List Char → Option (List Char × List Char)
  | '.' :: d :: rest =>
    if d.isDigit then
      some ((d :: rest).takeWhile isDigitOrUnderscore, (d :: rest).dropWhile isDigitOrUnderscore)
    else none
  | _ => none

/-- A sign, if there is one, and what follows it. -/
def signPart : List Char → List Char × List Char
  | [] => ([], [])
  | c :: rest => if c = '+' ∨ c = '-' then ([c], rest) else ([], c :: rest)

/-- The power of ten of a number: the letter, a sign or none, and at least one digit.  The first
part of the answer is the letter and the sign. -/
def power? : List Char → Option (List Char × List Char × List Char)
  | [] => none
  | e :: rest =>
    let (sign, rest) := signPart rest
    if (e = 'e' ∨ e = 'E') ∧ startsWithDigit rest then
      some (e :: sign, rest.takeWhile Char.isDigit, rest.dropWhile Char.isDigit)
    else none

/-- The number that some digits spell. -/
def ofDigits (cs : List Char) : Nat := Nat.ofDigitChars 10 cs 0

/-- The largest integer plus one. -/
def integerLimit : Nat := 0x8000000000000000

/-- The digits of a part of a number. -/
def digitsOf (cs : List Char) : List Char := cs.filter (· != '_')

/-- A number with a fraction or a power of ten, from its digits.  `written` is the number without
its underscores. -/
def decimal (written significand : List Char) (exponent : Int) : Except Fault Expr :=
  let value := Decimal.toFloat { digits := ofDigits significand, exponent }
  if value.isFinite then .ok (.float value) else .error (.invalidNumber written)

/-- An integer, from its digits.  `plain` says that no underscore was among them. -/
def integer (digits : List Char) (plain : Bool) : Except Fault Expr :=
  if ofDigits digits < integerLimit then .ok (.int (ofDigits digits) plain)
  else .error (.integerOutOfRange digits)

/-- The power that some digits spell after the letter and the sign in `mark`. -/
def signedPower (mark power : List Char) : Int :=
  if mark.contains '-' then -(ofDigits power : Int) else ofDigits power

/-- A number, from its first digit on. -/
def number (cs : List Char) : Except Fault (Expr × List Char) :=
  let whole := cs.takeWhile isDigitOrUnderscore
  let rest := cs.dropWhile isDigitOrUnderscore
  match fraction? rest with
  | some (part, rest) =>
    let written := digitsOf whole ++ '.' :: digitsOf part
    let significand := digitsOf whole ++ digitsOf part
    let places : Int := (digitsOf part).length
    match power? rest with
    | some (mark, power, rest) =>
      (decimal (written ++ mark ++ power) significand (signedPower mark power - places)).map
        (·, rest)
    | none => (decimal written significand (-places)).map (·, rest)
  | none =>
    match power? rest with
    | some (mark, power, rest) =>
      (decimal (digitsOf whole ++ mark ++ power) (digitsOf whole) (signedPower mark power)).map
        (·, rest)
    | none => (integer (digitsOf whole) (whole.all Char.isDigit)).map (·, rest)

/-! ## 2. Words -/

/-- Words that are never names. -/
def reservedWords : List String := ["and", "or", "not", "in", "is", "if", "else"]

/-- Whether a word is never a name. -/
def isReservedWord (cs : List Char) : Bool := reservedWords.any (·.toList == cs)

/-- The constant that a word stands for. -/
def constant? (word : List Char) : Option Expr :=
  if word = "true".toList ∨ word = "True".toList then some (.bool true)
  else if word = "false".toList ∨ word = "False".toList then some (.bool false)
  else if word = "none".toList ∨ word = "None".toList then some .null
  else none

/-- Whether an argument list follows, perhaps after blanks. -/
def callFollows (rest : List Char) : Bool := (trimStart rest).head? == some '('

/-- A constant or a name, from its first character on. -/
def word (cs : List Char) : Except Fault (Expr × List Char) :=
  let w := cs.takeWhile isIdentChar
  let rest := cs.dropWhile isIdentChar
  match constant? w with
  | some e => .ok (e, rest)
  | none =>
    if isReservedWord w then .error (.unexpectedKeyword w)
    else if callFollows rest then .error (.call w)
    else .ok (.name w, rest)

/-- The text after a leading keyword that a blank or a parenthesis follows. -/
def afterKeyword? (keyword cs : List Char) : Option (List Char) :=
  if keyword.isPrefixOf cs then
    let rest := cs.drop keyword.length
    if rest.head?.any fun c => isBlank c || c == '(' then some (trim rest) else none
  else none

/-! ## 3. Operators -/

/-- How the operators are written.  Of two that start alike the longer one goes first. -/
def operatorSymbols : List (List Char × BinOp) :=
  [(['=', '='], .eq), (['!', '='], .ne), (['<', '='], .le), (['>', '='], .ge), (['<'], .lt),
   (['>'], .gt), (['+'], .add), (['-'], .sub), (['*'], .mul), (['/'], .div), (['%'], .mod),
   (['~'], .concat)]

/-- What is wrong where no operator stands, given the text from there on. -/
def operatorFault (c : Char) (rest : List Char) : Fault :=
  if isIdentStart c then
    let w := (c :: rest).takeWhile isIdentChar
    if isReservedWord w then .unexpectedKeyword w else .expectedOperatorBefore w
  else if c = '(' then .callOfValue
  else if c = ',' then .argumentList
  else if c = ':' then .sliceOrDict
  else .unexpectedCharacter c

/-- The binary operator that a text starts with, and what follows it. -/
def operator (c : Char) (rest : List Char) : Except Fault (BinOp × List Char) :=
  if ['/', '/'].isPrefixOf (c :: rest) then .error .floorDivision
  else if ['*', '*'].isPrefixOf (c :: rest) then .error .exponentiation
  else
    match operatorSymbols.find? fun s => s.1.isPrefixOf (c :: rest) with
    | some (symbol, op) => .ok (op, (c :: rest).drop symbol.length)
    | none => .error (operatorFault c rest)

/-! ## 4. Operands -/

/-- Reads an inner expression. -/
abbrev Reader := List Char → Except Refusal Expr

/-- Blames a text for a fault. -/
def blame (source : List Char) (r : Except Fault α) : Except Refusal α :=
  r.mapError fun fault => { expr := source, fault }

/-- The signs at the start of an operand, and what follows them.  Blanks may stand between. -/
def signs : List Char → List Char × List Char
  | [] => ([], [])
  | c :: rest =>
    if isBlank c then signs rest
    else if c = '-' ∨ c = '+' then
      let (more, rest) := signs rest
      (c :: more, rest)
    else ([], c :: rest)

/-- Applies one sign. -/
def applySign (sign : Char) (e : Expr) : Expr := if sign = '-' then .neg e else .pos e

/-- A literal, a name or an expression in parentheses. -/
def primary (self : Reader) (source : List Char) :
    List Char → Except Refusal (Expr × List Char)
  | [] => blame source (.error .expectedOperand)
  | c :: rest =>
    if isQuote c then
      match stringBody? c rest with
      | some (value, rest) => .ok (.text value, rest)
      | none => blame source (.error .unterminatedString)
    else if c.isDigit then blame source (number (c :: rest))
    else if c = '(' then
      match matchingClose rest with
      | none => blame source (.error .unbalancedParenthesis)
      | some (inner, rest) =>
        if isBlankText inner then blame source (.error .emptyParentheses)
        else if hasChar ',' inner then blame source (.error .tuple)
        else do
          let e ← self inner
          return (.group e, rest)
    else if c = '[' then blame source (.error .listLiteral)
    else if c = '{' then blame source (.error .dictLiteral)
    else if isIdentStart c then blame source (word (c :: rest))
    else blame source (.error (.unexpectedCharacter c))

/-- The attribute after a dot. -/
def attributeAfter (subject : Expr) (rest : List Char) : Except Fault (Expr × List Char) :=
  let w := rest.takeWhile isIdentChar
  let rest := rest.dropWhile isIdentChar
  if w.isEmpty then .error .expectedAttribute
  else if callFollows rest then .error (.methodCall w)
  else if w.all Char.isDigit then
    if ofDigits w < integerLimit then .ok (.place subject (ofDigits w), rest)
    else .error .indexOutOfRange
  else .ok (.attr subject w, rest)

theorem length_attributeAfter_le {subject e : Expr} {cs rest : List Char}
    (h : attributeAfter subject cs = .ok (e, rest)) : rest.length ≤ cs.length := by
  have hl : (cs.dropWhile isIdentChar).length ≤ cs.length := (List.dropWhile_sublist _).length_le
  unfold attributeAfter at h
  simp only at h
  split at h
  · cases h
  · split at h
    · cases h
    · split at h
      · split at h
        · cases h; exact hl
        · cases h
      · cases h; exact hl

/-- The attributes and subscripts after an operand. -/
def postfixes (self : Reader) (source : List Char) (subject : Expr) (cs : List Char) :
    Except Refusal (Expr × List Char) :=
  match cs with
  | [] => .ok (subject, [])
  | c :: rest =>
    if c = '.' then
      match _hattr : attributeAfter subject rest with
      | .error fault => blame source (.error fault)
      | .ok (e, after) => postfixes self source e after
    else if c = '[' then
      match _hclose : matchingClose rest with
      | none => blame source (.error .unbalancedBracket)
      | some (inner, after) =>
        if (trim inner).isEmpty then blame source (.error .emptySubscript)
        else if hasChar ':' (trim inner) then blame source (.error .slice)
        else do
          let key ← self (trim inner)
          postfixes self source (.item subject key) after
    else if c = '(' then blame source (.error .callOfValue)
    else .ok (subject, c :: rest)
termination_by cs.length
decreasing_by
  · have := length_attributeAfter_le _hattr
    simp only [List.length_cons]
    omega
  · have := length_closeFrom_lt _hclose
    simp only [List.length_cons]
    omega

/-- The argument list of a filter, which is passed over. -/
def skipArguments (cs : List Char) : Except Fault (Bool × List Char) :=
  match cs with
  | '(' :: rest =>
    match matchingClose rest with
    | none => .error .unbalancedParenthesis
    | some (_, after) => .ok (true, after)
  | _ => .ok (false, cs)

theorem length_skipArguments_le {cs rest : List Char} {b : Bool}
    (h : skipArguments cs = .ok (b, rest)) : rest.length ≤ cs.length := by
  unfold skipArguments at h
  split at h
  · split at h
    · cases h
    · rename_i hm
      cases h
      have := length_closeFrom_lt hm
      simp only [List.length_cons]
      omega
  · cases h; exact Nat.le_refl _

/-- One filter, from after its bar. -/
def oneFilter (operand : Expr) (cs : List Char) : Except Fault (Expr × List Char) := do
  let cs := trimStart cs
  let w := cs.takeWhile isIdentChar
  if !(w.head?.any isIdentStart) then .error .expectedFilterName
  else
    let (hasArguments, rest) ← skipArguments (cs.dropWhile isIdentChar)
    if w = "tojson".toList then
      if hasArguments then .error .toJsonArguments else .ok (.toJson operand, rest)
    else .ok (.filter operand w, rest)

theorem length_oneFilter_le {operand e : Expr} {cs rest : List Char}
    (h : oneFilter operand cs = .ok (e, rest)) : rest.length ≤ cs.length := by
  have hl : ((trimStart cs).dropWhile isIdentChar).length ≤ cs.length :=
    Nat.le_trans (List.dropWhile_sublist _).length_le (List.dropWhile_sublist _).length_le
  unfold oneFilter at h
  simp only at h
  split at h
  · cases h
  · cases hs : skipArguments ((trimStart cs).dropWhile isIdentChar) with
    | error f => simp [hs, bind, Except.bind] at h
    | ok p =>
      obtain ⟨b, after⟩ := p
      have ha := length_skipArguments_le hs
      simp only [hs, bind, Except.bind] at h
      split at h
      · split at h
        · cases h
        · cases h; omega
      · cases h; omega

/-- The filters after an operand. -/
def filters (source : List Char) (operand : Expr) (cs : List Char) :
    Except Refusal (Expr × List Char) :=
  match _htrim : trimStart cs with
  | [] => .ok (operand, [])
  | c :: rest =>
    if c = '|' then
      match _hfilter : oneFilter operand rest with
      | .error fault => blame source (.error fault)
      | .ok (e, after) => filters source e after
    else .ok (operand, c :: rest)
termination_by cs.length
decreasing_by
  have h1 := length_oneFilter_le _hfilter
  have h2 : (trimStart cs).length ≤ cs.length := (List.dropWhile_sublist _).length_le
  rw [_htrim] at h2
  simp only [List.length_cons] at h2
  omega

/-- An operand: signs, a primary expression, its postfixes and its filters.  The filters apply to
the operand with its signs. -/
def operand (self : Reader) (source cs : List Char) : Except Refusal (Expr × List Char) := do
  let (before, rest) := signs cs
  let (e, rest) ← primary self source rest
  let (e, rest) ← postfixes self source e rest
  filters source (before.foldr applySign e) rest

/-! ## 5. Chains -/

/-- What an operand makes of the chain before it. -/
def extend (before : Option (Expr × BinOp)) (e : Expr) : Expr :=
  match before with
  | none => e
  | some (left, op) => .binary left op e

/-- Operands and operators, to the end of the text.  Of the operators, one may compare.  Each
operand uses up a character at least, so `allowed` never runs out before the text does. -/
def chain (self : Reader) (source : List Char) :
    Nat → Option (Expr × BinOp) → Bool → List Char → Except Refusal Expr
  | 0, _, _, _ => blame source (.error .expectedOperand)
  | allowed + 1, before, compared, cs => do
    let (e, rest) ← operand self source cs
    match rest with
    | [] => return extend before e
    | c :: rest =>
      let (op, rest) ← blame source (operator c rest)
      if op.isComparison && compared then blame source (.error .chainedComparisons)
      else chain self source allowed (some (extend before e, op)) (compared || op.isComparison) rest

/-! ## 6. Words that cut -/

/-- Whether a word looser than an `is` test stands at top level. -/
def hasLooserWord (cs : List Char) : Bool :=
  hasWord "or".toList cs || hasWord "and".toList cs || hasWord "in".toList cs ||
    (afterKeyword? "not".toList cs).isSome

/-- An `is` test. -/
def test (self : Reader) (source subject name : List Char) : Except Refusal Expr := do
  let (negated, name) :=
    match afterKeyword? "not".toList name with
    | some rest => (true, rest)
    | none => (false, name)
  if name = "defined".toList then return .defined negated (← self subject)
  else if name = "undefined".toList then return .defined (!negated) (← self subject)
  else blame source (.error (.unsupportedTest name))

/-- One part of a boolean expression. -/
def part (self : Reader) (source cs : List Char) : Except Refusal Expr :=
  if isBlankText cs then blame source (.error .missingBooleanOperand) else self cs

/-- The parts of a boolean expression, joined from the left. -/
def joinParts (self : Reader) (source : List Char) (join : Expr → Expr → Expr)
    (first : List Char) (rest : List (List Char)) : Except Refusal Expr := do
  let e ← part self source first
  rest.foldlM (fun acc cs => do return join acc (← part self source cs)) e

/-- The item of a membership test, and whether a `not` was taken off its end. -/
def memberItem (before : List Char) : List Char × Bool :=
  let left := trimEnd before
  let stem := left.take (left.length - 3)
  if "not".toList.isSuffixOf left && stem.getLast?.any isBlank then (trimEnd stem, true)
  else (left, false)

/-- A membership test.  The container is read before the item. -/
def membership (self : Reader) (source before after : List Char) : Except Refusal Expr :=
  let (item, negated) := memberItem before
  if item.isEmpty || (trim after).isEmpty then
    blame source (.error .missingMembershipOperand)
  else do
    let container ← self (trim after)
    let item ← self item
    return .member negated item container

/-- An expression without an `is` test at top level, or with a looser word. -/
def boolean (self : Reader) (source : List Char) : Except Refusal Expr :=
  match splitWord "or".toList source with
  | first :: second :: rest => joinParts self source .or first (second :: rest)
  | _ =>
    match splitWord "and".toList source with
    | first :: second :: rest => joinParts self source .and first (second :: rest)
    | _ =>
      match afterKeyword? "not".toList source with
      | some rest => do return .not (← self rest)
      | none =>
        match cutWord "in".toList source with
        | some (before, after) => membership self source before after
        | none => chain self source (source.length + 1) none false source

/-- An expression, given a reader of its inner expressions. -/
def readWith (self : Reader) (expr : List Char) : Except Refusal Expr :=
  let source := trim expr
  if source.isEmpty then blame expr (.error .empty)
  else
    match if hasLooserWord source then none else cutWord "is".toList source with
    | some (subject, name) => test self source (trim subject) (trim name)
    | none => boolean self source

end Reading

/-! ## 7. The knot -/

/-- Reads an expression.  Inner texts are shorter, so the guard never refuses one. -/
def Expr.read (expr : List Char) : Except Reading.Refusal Expr :=
  Reading.readWith
    (fun inner =>
      if inner.length < expr.length then Expr.read inner
      else Reading.blame inner (.error .empty))
    expr
termination_by expr.length


end TemplateCompiler
