/-! # JSON documents

A strict reader of JSON texts: no comments, no trailing commas, no leading zeros, no control
characters in strings, and nothing but blanks around the document.

The reader keeps what is written and checks only the grammar.  Whether a string denotes a text
and whether a number is in range is asked later, and only of the parts that are used: a string
may hold codes of surrogates that do not pair, and a document may be nested to any depth.
`Json.isUsable` asks these questions of a value.
-/

namespace TemplateCompiler.Config

/-! ## 1. Trees -/

/-- A piece of a string: a character, or a 16-bit unit given by its code. -/
inductive Piece where
  | char (c : Char)
  | unit (code : Nat)
  deriving DecidableEq, Repr

/-- A number as it is written. -/
structure Number where
  negative : Bool
  whole : List Char
  fraction : List Char
  power : Int
  deriving DecidableEq, Repr

/-- A JSON value as it is written. -/
inductive Json where
  | null
  | bool (value : Bool)
  | number (value : Number)
  | string (pieces : List Piece)
  | array (items : List Json)
  | object (members : List (List Piece × Json))

/-! ## 2. Strings -/

/-- The value of a hexadecimal digit. -/
def hexDigit? (c : Char) : Option Nat :=
  if c.isDigit then some (c.toNat - '0'.toNat)
  else if 'a' ≤ c ∧ c ≤ 'f' then some (c.toNat - 'a'.toNat + 10)
  else if 'A' ≤ c ∧ c ≤ 'F' then some (c.toNat - 'A'.toNat + 10)
  else none

/-- The value of four hexadecimal digits. -/
def hexUnit? (a b c d : Char) : Option Nat := do
  return 4096 * (← hexDigit? a) + 256 * (← hexDigit? b) + 16 * (← hexDigit? c) + (← hexDigit? d)

/-- The character that a backslash and a letter or mark stand for. -/
def shortEscape? (c : Char) : Option Char :=
  if c = '"' ∨ c = '\\' ∨ c = '/' then some c
  else if c = 'b' then some '\x08'
  else if c = 'f' then some '\x0c'
  else if c = 'n' then some '\n'
  else if c = 'r' then some '\r'
  else if c = 't' then some '\t'
  else none

/-- The pieces of a string, from after its first quotation mark, and the text after the
string. -/
def pieces : List Char → Option (List Piece × List Char)
  | [] => none
  | '"' :: rest => some ([], rest)
  | '\\' :: 'u' :: a :: b :: c :: d :: rest => do
    let code ← hexUnit? a b c d
    let (more, rest) ← pieces rest
    return (.unit code :: more, rest)
  | '\\' :: e :: rest => do
    let c ← shortEscape? e
    let (more, rest) ← pieces rest
    return (.char c :: more, rest)
  | c :: rest =>
    if c = '\\' ∨ c.toNat < 0x20 then none
    else do
      let (more, rest) ← pieces rest
      return (.char c :: more, rest)

/-- The text that a string denotes.  Two units that are a pair of surrogates make one character;
a surrogate without its partner makes none. -/
def decode? : List Piece → Option (List Char)
  | [] => some []
  | .char c :: rest => do return c :: (← decode? rest)
  | .unit high :: .unit low :: rest =>
    if 0xD800 ≤ high ∧ high < 0xDC00 then
      if 0xDC00 ≤ low ∧ low < 0xE000 then do
        let c := Char.ofNat (0x10000 + (high - 0xD800) * 0x400 + (low - 0xDC00))
        return c :: (← decode? rest)
      else none
    else if 0xDC00 ≤ high ∧ high < 0xE000 then none
    else do return Char.ofNat high :: (← decode? (.unit low :: rest))
  | .unit code :: rest =>
    if 0xD800 ≤ code ∧ code < 0xE000 then none
    else do return Char.ofNat code :: (← decode? rest)

/-! ## 3. Numbers -/

/-- At least one digit. -/
def digits? (cs : List Char) : Option (List Char × List Char) :=
  match cs.takeWhile Char.isDigit with
  | [] => none
  | ds => some (ds, cs.dropWhile Char.isDigit)

/-- The whole part of a number: a lone zero, or digits that start with another one. -/
def wholePart? : List Char → Option (List Char × List Char)
  | '0' :: rest => some (['0'], rest)
  | cs => digits? cs

/-- The fraction of a number, which may be missing. -/
def fractionPart? : List Char → Option (List Char × List Char)
  | '.' :: rest => digits? rest
  | cs => some ([], cs)

/-- The number that some digits spell. -/
def ofDigits (cs : List Char) : Nat := Nat.ofDigitChars 10 cs 0

/-- The power of ten of a number, which may be missing. -/
def powerPart? : List Char → Option (Int × List Char)
  | [] => some (0, [])
  | e :: rest =>
    if e = 'e' ∨ e = 'E' then
      match rest with
      | '-' :: rest => (digits? rest).map fun (ds, rest) => (-(ofDigits ds : Int), rest)
      | '+' :: rest => (digits? rest).map fun (ds, rest) => ((ofDigits ds : Int), rest)
      | _ => (digits? rest).map fun (ds, rest) => ((ofDigits ds : Int), rest)
    else some (0, e :: rest)

/-- Whether a number has a minus sign, and the text after the sign. -/
def signPart : List Char → Bool × List Char
  | '-' :: rest => (true, rest)
  | cs => (false, cs)

/-- A number, with or without a sign. -/
def number? (cs : List Char) : Option (Number × List Char) := do
  let (negative, cs) := signPart cs
  let (whole, cs) ← wholePart? cs
  let (fraction, cs) ← fractionPart? cs
  let (power, cs) ← powerPart? cs
  return ({ negative, whole, fraction, power }, cs)

/-! ## 4. Values -/

/-- The blanks of JSON. -/
def isJsonBlank (c : Char) : Bool := c == ' ' || c == '\t' || c == '\n' || c == '\r'

/-- The text after its blanks. -/
def skipBlanks (cs : List Char) : List Char := cs.dropWhile isJsonBlank

/-- The text after a fixed word. -/
def expect? (word : String) (cs : List Char) : Option (List Char) :=
  if word.toList.isPrefixOf cs then some (cs.drop word.length) else none

mutual

/-- A value, and the text after it.  Every step into a value and along a list uses up one of the
allowed steps; twice the length of the text is enough. -/
def value? : Nat → List Char → Option (Json × List Char)
  | 0, _ => none
  | n + 1, cs =>
    match cs with
    | '"' :: rest => do
      let (s, rest) ← pieces rest
      return (.string s, rest)
    | '[' :: rest =>
      match skipBlanks rest with
      | ']' :: rest => some (.array [], rest)
      | rest => do
        let (items, rest) ← items? n rest
        return (.array items, rest)
    | '{' :: rest =>
      match skipBlanks rest with
      | '}' :: rest => some (.object [], rest)
      | rest => do
        let (members, rest) ← members? n rest
        return (.object members, rest)
    | 'n' :: _ => do return (.null, ← expect? "null" cs)
    | 't' :: _ => do return (.bool true, ← expect? "true" cs)
    | 'f' :: _ => do return (.bool false, ← expect? "false" cs)
    | _ => do
      let (n, rest) ← number? cs
      return (.number n, rest)

/-- The items of an array, from the first one to after the closing bracket. -/
def items? : Nat → List Char → Option (List Json × List Char)
  | 0, _ => none
  | n + 1, cs => do
    let (v, rest) ← value? n cs
    match skipBlanks rest with
    | ',' :: rest =>
      let (more, rest) ← items? n (skipBlanks rest)
      return (v :: more, rest)
    | ']' :: rest => return ([v], rest)
    | _ => none

/-- The members of an object, from the first one to after the closing brace. -/
def members? : Nat → List Char → Option (List (List Piece × Json) × List Char)
  | 0, _ => none
  | n + 1, cs =>
    match cs with
    | '"' :: rest => do
      let (key, rest) ← pieces rest
      match skipBlanks rest with
      | ':' :: rest =>
        let (v, rest) ← value? n (skipBlanks rest)
        match skipBlanks rest with
        | ',' :: rest =>
          let (more, rest) ← members? n (skipBlanks rest)
          return ((key, v) :: more, rest)
        | '}' :: rest => return ([(key, v)], rest)
        | _ => none
      | _ => none
    | _ => none

end

/-- A whole document. -/
def document? (cs : List Char) : Option Json := do
  let (v, rest) ← value? (2 * cs.length + 2) (skipBlanks cs)
  if (skipBlanks rest).isEmpty then return v else none

/-! ## 5. Usable values -/

/-- The largest significand that is kept. -/
def significandLimit : Nat := 0xFFFFFFFFFFFFFFFF

/-- The significand with one more digit and the number of digits that did not fit in it.  From the
first digit that does not fit on, all digits are dropped. -/
def keepDigit : Nat × Nat → Char → Nat × Nat
  | (kept, dropped), d =>
    let next := 10 * kept + ofDigits [d]
    if dropped = 0 ∧ next ≤ significandLimit then (next, 0) else (kept, dropped + 1)

/-- The significand of the whole part and the number of digits that did not fit in it. -/
def wholeSignificand (ds : List Char) : Nat × Nat := ds.foldl keepDigit (0, 0)

/-- The significand with the digits of the fraction, up to the first that does not fit, and the
power of ten of its last digit. -/
def fractionSignificand : Nat → Int → List Char → Nat × Int
  | kept, power, [] => (kept, power)
  | kept, power, d :: ds =>
    let next := 10 * kept + ofDigits [d]
    if next ≤ significandLimit then fractionSignificand next (power - 1) ds else (kept, power)

/-- Whether a number has a value that is not infinite.  The value is the significand, as a
double, times a power of ten. -/
def Number.inRange (n : Number) : Bool :=
  let (whole, dropped) := wholeSignificand n.whole
  let (significand, power) := fractionSignificand whole dropped n.fraction
  let power := power + n.power
  if significand = 0 ∨ power ≤ 0 then true
  else if power > 308 then false
  else (Float.ofNat significand * Float.ofScientific 1 false power.toNat).isFinite

mutual

/-- Whether a value can be used: its strings denote texts, its numbers are in range, and it is
nested at most `depth` times. -/
def Json.isUsable (depth : Nat) : Json → Bool
  | .null => true
  | .bool _ => true
  | .number n => n.inRange
  | .string s => (decode? s).isSome
  | .array items => 0 < depth && itemsUsable (depth - 1) items
  | .object members => 0 < depth && membersUsable (depth - 1) members

/-- Whether all items can be used. -/
def itemsUsable (depth : Nat) : List Json → Bool
  | [] => true
  | v :: rest => v.isUsable depth && itemsUsable depth rest

/-- Whether all members can be used. -/
def membersUsable (depth : Nat) : List (List Piece × Json) → Bool
  | [] => true
  | (key, v) :: rest => (decode? key).isSome && v.isUsable depth && membersUsable depth rest

end

end TemplateCompiler.Config
