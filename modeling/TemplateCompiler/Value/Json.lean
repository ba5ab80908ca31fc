import TemplateCompiler.Value.Print

/-! # The JSON of a value

A value is written on one line, with a blank after every comma and colon, and entries in their
order.  The missing value is written like null.  Only what JSON forbids in a string is escaped,
so characters beyond ASCII stand for themselves.
-/

namespace TemplateCompiler.Value

/-- A control character by its four-digit code. -/
def jsonCode (c : Char) : List Char :=
  let digits := Nat.toDigits 16 c.toNat
  '\\' :: 'u' :: List.replicate (4 - digits.length) '0' ++ digits

/-- A character inside a JSON string. -/
def jsonChar (c : Char) : List Char :=
  if c = '"' then ['\\', '"']
  else if c = '\\' then ['\\', '\\']
  else if c = '\n' then ['\\', 'n']
  else if c = '\r' then ['\\', 'r']
  else if c = '\t' then ['\\', 't']
  else if c = '\x08' then ['\\', 'b']
  else if c = '\x0c' then ['\\', 'f']
  else if c.toNat < 0x20 then jsonCode c
  else [c]

/-- A JSON string. -/
def jsonText (s : List Char) : List Char := '"' :: s.flatMap jsonChar ++ ['"']

/-- A double.  A NaN and the infinities are written as words, which JSON does not have. -/
def jsonFloat (x : Float) : List Char :=
  if x.isNaN then "NaN".toList
  else if x.isInf then if x > 0.0 then "Infinity".toList else "-Infinity".toList
  else floatText x

mutual

/-- The JSON of a value. -/
def json : Value → List Char
  | .undefined | .null => "null".toList
  | .bool b => if b then "true".toList else "false".toList
  | .int n => intText n
  | .float x => jsonFloat x
  | .text s => jsonText s
  | .list items => '[' :: jsonItems items ++ [']']
  | .map entries => '{' :: jsonEntries entries ++ ['}']

/-- Items with a comma and a blank between each two. -/
def jsonItems : List Value → List Char
  | [] => []
  | [v] => v.json
  | v :: rest => v.json ++ ", ".toList ++ jsonItems rest

/-- Entries with a comma and a blank between each two. -/
def jsonEntries : List (List Char × Value) → List Char
  | [] => []
  | [(key, v)] => jsonText key ++ ": ".toList ++ v.json
  | (key, v) :: rest => jsonText key ++ ": ".toList ++ v.json ++ ", ".toList ++ jsonEntries rest

end

/-- The value of the `tojson` filter. -/
def toJson (v : Value) : Value := .text v.json

end TemplateCompiler.Value
