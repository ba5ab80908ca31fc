import TemplateCompiler.Decimal.Layout
import TemplateCompiler.Value.Basic

/-! # The text of a value

A text is written as it is and the missing value as nothing.  Inside a list or map every value is
written so that its kind can be seen: texts in quotation marks, the missing value like null.

A quoted text stands in single quotation marks, or in double ones if it holds a single mark and
no double one.  The backslash, the mark itself and three control characters are escaped.
-/

namespace TemplateCompiler.Value

/-! ## 1. Numbers -/

/-- Numbers are written with a signed power of ten of at least two digits. -/
def floatStyle : Decimal.Style := { plusSign := true, powerDigits := 2 }

/-- A double.  A NaN and the infinities are words. -/
def floatText (x : Float) : List Char :=
  if x.isNaN then "nan".toList
  else if x.isInf then if x > 0.0 then "inf".toList else "-inf".toList
  else Decimal.writeFloat floatStyle x

/-- An integer, in decimal digits. -/
def intText (n : Int64) : List Char :=
  if n.toInt < 0 then '-' :: Nat.toDigits 10 n.toInt.natAbs
  else Nat.toDigits 10 n.toInt.natAbs

/-! ## 2. Quoted texts -/

/-- The quotation mark for a text. -/
def markFor (s : List Char) : Char := if s.contains '\'' && !s.contains '"' then '"' else '\''

/-- A character inside quotation marks. -/
def escapeIn (mark c : Char) : List Char :=
  if c = '\\' then ['\\', '\\']
  else if c = '\n' then ['\\', 'n']
  else if c = '\r' then ['\\', 'r']
  else if c = '\t' then ['\\', 't']
  else if c = mark then ['\\', c]
  else [c]

/-- A text in quotation marks. -/
def quoted (s : List Char) : List Char :=
  markFor s :: s.flatMap (escapeIn (markFor s)) ++ [markFor s]

/-! ## 3. Values -/

mutual

/-- A value as it is written inside a list or map. -/
def inner : Value → List Char
  | .undefined | .null => "None".toList
  | .bool b => if b then "True".toList else "False".toList
  | .int n => intText n
  | .float x => floatText x
  | .text s => quoted s
  | .list items => '[' :: innerItems items ++ [']']
  | .map entries => '{' :: innerEntries entries ++ ['}']

/-- Items with a comma and a blank between each two. -/
def innerItems : List Value → List Char
  | [] => []
  | [v] => v.inner
  | v :: rest => v.inner ++ ", ".toList ++ innerItems rest

/-- Entries with a comma and a blank between each two. -/
def innerEntries : List (List Char × Value) → List Char
  | [] => []
  | [(key, v)] => quoted key ++ ": ".toList ++ v.inner
  | (key, v) :: rest => quoted key ++ ": ".toList ++ v.inner ++ ", ".toList ++ innerEntries rest

end

/-- The text of a value. -/
def display : Value → List Char
  | .undefined => []
  | .text s => s
  | v => v.inner

end TemplateCompiler.Value
