import TemplateCompiler.Text.Hidden

/-! # String literals of the generated code

A text becomes a Rust string literal in double quotes.  The quotation mark and the backslash
are escaped, four control characters have short forms, and every other hidden character is
written by its code point in hexadecimal.  All else stands for itself, so no literal holds a
line break or a quotation mark of its own.
-/

namespace TemplateCompiler.Target

open Text

/-- The code point of a character between braces. -/
def codeEscape (c : Char) : List Char :=
  ['\\', 'u', '{'] ++ Nat.toDigits 16 c.toNat ++ ['}']

/-- A character inside a literal. -/
def escapeChar (c : Char) : List Char :=
  if c = '"' then ['\\', '"']
  else if c = '\\' then ['\\', '\\']
  else if c = '\x00' then ['\\', '0']
  else if c = '\t' then ['\\', 't']
  else if c = '\r' then ['\\', 'r']
  else if c = '\n' then ['\\', 'n']
  else if isHidden c then codeEscape c
  else [c]

/-- A text as a string literal. -/
def quote (cs : List Char) : List Char := '"' :: cs.flatMap escapeChar ++ ['"']

end TemplateCompiler.Target
