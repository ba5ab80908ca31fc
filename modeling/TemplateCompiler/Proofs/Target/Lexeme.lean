import TemplateCompiler.Proofs.Text.Digits
import TemplateCompiler.Target.Quoted

/-! # The lexemes of generated code

Generated code is text, and what it means is decided by Rust's rules.  This module states the
lexical ones: which characters make a word, a literal, a symbol or a comment, each lexeme as long
as it can be.  Lexemes that no generated expression holds are not read: names outside ASCII,
characters, lifetimes, byte strings and raw strings, numbers in other bases or with a suffix.

`lex` gives the tokens of a text, or nothing if the text is not a sequence of lexemes.  White
space and comments leave no token.
-/

namespace TemplateCompiler.Target

open Text

/-! ## 1. Tokens -/

/-- The binary operators. -/
inductive Operator where
  | mul
  | div
  | rem
  | add
  | sub
  | xor
  | eq
  | ne
  | lt
  | le
  | gt
  | ge
  | and
  | or
  deriving DecidableEq, Repr

/-- The symbols.  Those that no generated expression holds are kept as they are written. -/
inductive Symbol where
  /-- A binary operator.  The minus sign is one also where it is a sign. -/
  | operator (op : Operator)
  | exclamation
  | ampersand
  | pathSeparator
  | dot
  | comma
  | leftParen
  | rightParen
  | other (text : List Char)
  deriving DecidableEq, Repr

/-- The tokens. -/
inductive Token where
  /-- A name or a keyword.  A raw identifier keeps its mark, so it is never a keyword. -/
  | word (name : List Char)
  | text (value : List Char)
  | int (value : Nat)
  | float (written : List Char)
  | symbol (s : Symbol)
  deriving DecidableEq, Repr

/-- A token for each symbol.  Of two that start alike the longer one goes first. -/
def symbols : List (List Char × Symbol) :=
  [(['<', '<', '='], .other ['<', '<', '=']), (['>', '>', '='], .other ['>', '>', '=']),
   (['.', '.', '.'], .other ['.', '.', '.']), (['.', '.', '='], .other ['.', '.', '=']),
   (['&', '&'], .operator .and), (['|', '|'], .operator .or),
   (['=', '='], .operator .eq), (['!', '='], .operator .ne), (['<', '='], .operator .le),
   (['>', '='], .operator .ge), (['<', '<'], .other ['<', '<']), (['>', '>'], .other ['>', '>']),
   (['+', '='], .other ['+', '=']), (['-', '='], .other ['-', '=']),
   (['*', '='], .other ['*', '=']), (['/', '='], .other ['/', '=']),
   (['%', '='], .other ['%', '=']), (['^', '='], .other ['^', '=']),
   (['&', '='], .other ['&', '=']), (['|', '='], .other ['|', '=']),
   (['-', '>'], .other ['-', '>']), (['=', '>'], .other ['=', '>']),
   (['<', '-'], .other ['<', '-']), ([':', ':'], .pathSeparator), (['.', '.'], .other ['.', '.']),
   (['+'], .operator .add), (['-'], .operator .sub), (['*'], .operator .mul),
   (['/'], .operator .div), (['%'], .operator .rem), (['^'], .operator .xor),
   (['<'], .operator .lt), (['>'], .operator .gt), (['!'], .exclamation), (['&'], .ampersand),
   (['|'], .other ['|']), (['='], .other ['=']), (['@'], .other ['@']), (['.'], .dot),
   ([','], .comma), ([';'], .other [';']), ([':'], .other [':']), (['#'], .other ['#']),
   (['$'], .other ['$']), (['?'], .other ['?']), (['~'], .other ['~']), (['('], .leftParen),
   ([')'], .rightParen), (['['], .other ['[']), ([']'], .other [']']), (['{'], .other ['{']),
   (['}'], .other ['}'])]

/-! ## 2. Lexemes -/

/-- White space between tokens (the Unicode property `Pattern_White_Space`). -/
def isSpace (c : Char) : Bool :=
  let n := c.toNat
  (0x09 ≤ n && n ≤ 0x0D) || n == 0x20 || n == 0x85 || n == 0x200E || n == 0x200F || n == 0x2028 ||
    n == 0x2029

/-- The value of a hexadecimal digit. -/
def hexDigit? (c : Char) : Option Nat :=
  if c.isDigit then some (c.toNat - '0'.toNat)
  else if 'a' ≤ c ∧ c ≤ 'f' then some (c.toNat - 'a'.toNat + 10)
  else if 'A' ≤ c ∧ c ≤ 'F' then some (c.toNat - 'A'.toNat + 10)
  else none

/-- Where the reader of a string literal stands. -/
inductive Escaping where
  | no
  /-- After a backslash. -/
  | backslash
  /-- After a backslash and the letter `u`. -/
  | brace
  /-- Inside the braces of a code point, with its value and the number of its digits so far. -/
  | code (value digits : Nat)
  deriving DecidableEq, Repr

/-- The character that a backslash and `c` stand for. -/
def simpleEscape? (c : Char) : Option Char :=
  if c = 'n' then some '\n'
  else if c = 'r' then some '\r'
  else if c = 't' then some '\t'
  else if c = '0' then some '\x00'
  else if c = '\\' ∨ c = '"' ∨ c = '\'' then some c
  else none

/-- Puts a character before the value of a string literal. -/
def consValue (c : Char) (r : Option (List Char × List Char)) : Option (List Char × List Char) :=
  r.map fun (value, rest) => (c :: value, rest)

/-- The value of a string literal, from after its quotation mark, and the text after it. -/
def textBody? : Escaping → List Char → Option (List Char × List Char)
  | _, [] => none
  | .no, c :: rest =>
    if c = '"' then some ([], rest)
    else if c = '\\' then textBody? .backslash rest
    else if c = '\r' then none
    else consValue c (textBody? .no rest)
  | .backslash, c :: rest =>
    if c = 'u' then textBody? .brace rest
    else
      match simpleEscape? c with
      | some d => consValue d (textBody? .no rest)
      | none => none
  | .brace, c :: rest => if c = '{' then textBody? (.code 0 0) rest else none
  | .code value digits, c :: rest =>
    if c = '}' then
      if 0 < digits ∧ digits ≤ 6 ∧ value.isValidChar then
        consValue (Char.ofNat value) (textBody? .no rest)
      else none
    else
      match hexDigit? c with
      | some d => textBody? (.code (16 * value + d) (digits + 1)) rest
      | none => none

/-- The text after a comment, from inside `depth + 1` comments: comments nest. -/
def afterComment? : Nat → List Char → Option (List Char)
  | 0, '*' :: '/' :: rest => some rest
  | depth + 1, '*' :: '/' :: rest => afterComment? depth rest
  | depth, '/' :: '*' :: rest => afterComment? (depth + 1) rest
  | depth, _ :: rest => afterComment? depth rest
  | _, [] => none

/-- Whether no name goes on here.  A literal with letters right after it is another lexeme. -/
def wordEnds (rest : List Char) : Bool := !(rest.head?.any isIdentChar)

/-- A word, from its first character on.  A word right before a quotation mark or a hash is the
start of another lexeme, a raw identifier among them. -/
def word? (cs : List Char) : Option (Token × List Char) :=
  let w := cs.takeWhile isIdentChar
  match cs.dropWhile isIdentChar with
  | '"' :: _ | '\'' :: _ => none
  | '#' :: rest =>
    if w = ['r'] ∧ isIdentifier (rest.takeWhile isIdentChar) then
      some (.word ('r' :: '#' :: rest.takeWhile isIdentChar), rest.dropWhile isIdentChar)
    else none
  | rest => some (.word w, rest)

/-- The power of ten of a number, if there is one: what it is written with and what follows. -/
def powerPart (cs : List Char) : List Char × List Char :=
  match cs with
  | e :: rest =>
    let sign := rest.takeWhile fun c => c == '-' || c == '+'
    let after := rest.dropWhile fun c => c == '-' || c == '+'
    if (e = 'e' ∨ e = 'E') ∧ sign.length ≤ 1 ∧ startsWithDigit after then
      (e :: sign ++ after.takeWhile Char.isDigit, after.dropWhile Char.isDigit)
    else ([], cs)
  | [] => ([], [])

/-- The fraction of a number, if there is one: a point and at least one digit. -/
def fractionPart (cs : List Char) : List Char × List Char :=
  match cs with
  | '.' :: rest =>
    if startsWithDigit rest then ('.' :: rest.takeWhile Char.isDigit, rest.dropWhile Char.isDigit)
    else ([], cs)
  | _ => ([], cs)

/-- A number in decimal notation, from its first digit on. -/
def number? (cs : List Char) : Option (Token × List Char) :=
  let digits := cs.takeWhile Char.isDigit
  let (fraction, rest) := fractionPart (cs.dropWhile Char.isDigit)
  let (power, rest) := powerPart rest
  if !wordEnds rest then none
  else if fraction.isEmpty && power.isEmpty then some (.int (Nat.ofDigitChars 10 digits 0), rest)
  else some (.float (digits ++ fraction ++ power), rest)

/-- The longest symbol that a text starts with. -/
def symbol? (cs : List Char) : Option (Token × List Char) :=
  (symbols.find? fun s => s.1.isPrefixOf cs).map fun s => (.symbol s.2, cs.drop s.1.length)

/-- The first lexeme of a text: its token, if it has one, and the text after it. -/
def lexeme? (c : Char) (rest : List Char) : Option (Option Token × List Char) :=
  if isSpace c then some (none, rest)
  else if c = '"' then
    match textBody? .no rest with
    | some (value, rest) => if wordEnds rest then some (some (.text value), rest) else none
    | none => none
  else if c.isDigit then (number? (c :: rest)).map fun (t, rest) => (some t, rest)
  else if isIdentStart c then (word? (c :: rest)).map fun (t, rest) => (some t, rest)
  else if ['/', '/'].isPrefixOf (c :: rest) then some (none, rest.dropWhile (· != '\n'))
  else if ['/', '*'].isPrefixOf (c :: rest) then
    (afterComment? 0 (rest.drop 1)).map fun rest => (none, rest)
  else (symbol? (c :: rest)).map fun (t, rest) => (some t, rest)

/-- The tokens of a text.  A lexeme has at least one character, so what follows it is shorter. -/
def lex (cs : List Char) : Option (List Token) :=
  match cs with
  | [] => some []
  | c :: rest =>
    match lexeme? c rest with
    | none => none
    | some (t, after) =>
      if after.length ≤ rest.length then (lex after).map (t.toList ++ ·) else none
termination_by cs.length
decreasing_by
  simp only [List.length_cons]
  omega

/-! ## 3. One lexeme at a time -/

@[simp] theorem lex_nil : lex [] = some [] := by
  rw [lex]

/-- What the first lexeme of a text does. -/
theorem lex_cons {c : Char} {rest after : List Char} {t : Option Token}
    (h : lexeme? c rest = some (t, after)) (hle : after.length ≤ rest.length) :
    lex (c :: rest) = (lex after).map (t.toList ++ ·) := by
  rw [lex, h]
  simp only [if_pos hle]

theorem lex_space (rest : List Char) : lex (' ' :: rest) = lex rest := by
  have hlexeme : lexeme? ' ' rest = some (none, rest) := rfl
  rw [lex_cons hlexeme (Nat.le_refl _)]
  cases lex rest <;> rfl

/-- A character that starts neither white space nor a literal nor a word. -/
def isSymbolStart (c : Char) : Bool :=
  !isSpace c && c != '"' && !c.isDigit && !isIdentStart c

/-- A symbol that does not start a comment. -/
theorem lex_symbol {c : Char} {rest after : List Char} {t : Token} (hc : isSymbolStart c = true)
    (hline : ['/', '/'].isPrefixOf (c :: rest) = false)
    (hblock : ['/', '*'].isPrefixOf (c :: rest) = false)
    (h : symbol? (c :: rest) = some (t, after)) (hle : after.length ≤ rest.length) :
    lex (c :: rest) = (lex after).map (t :: ·) := by
  simp only [isSymbolStart, Bool.and_eq_true, bne_iff_ne, Bool.not_eq_true'] at hc
  obtain ⟨⟨⟨hs, hq⟩, hd⟩, hi⟩ := hc
  refine lex_cons (t := some t) ?_ hle
  simp [lexeme?, hs, hq, hd, hi, hline, hblock, h]

/-! ## 4. Words -/

/-- What may follow a word: neither more of it, nor what would make another lexeme of it. -/
def NameEnd (rest : List Char) : Prop :=
  ∀ c ∈ rest.head?, isIdentChar c = false ∧ c ≠ '"' ∧ c ≠ '\'' ∧ c ≠ '#'

theorem NameEnd.wordEnd {rest : List Char} (h : NameEnd rest) : WordEnd rest :=
  fun c hc => (h c hc).1

/-- No character of a name starts white space or a literal. -/
theorem classes_of_isIdentStart {c : Char} (h : isIdentStart c = true) :
    isSpace c = false ∧ c ≠ '"' ∧ c.isDigit = false := by
  refine ⟨?_, ?_, isDigit_of_isIdentStart h⟩
  · simp only [isIdentStart, Bool.or_eq_true, isAlpha_iff, beq_iff_eq] at h
    rcases h with h | rfl
    · simp only [isSpace, Bool.or_eq_false_iff, Bool.and_eq_false_iff, decide_eq_false_iff_not,
        beq_eq_false_iff_ne]
      omega
    · decide
  · rintro rfl
    exact absurd h (by decide)

theorem lex_of_word? {c : Char} {rest after : List Char} {t : Token} (hc : isIdentStart c = true)
    (h : word? (c :: rest) = some (t, after)) (hle : after.length ≤ rest.length) :
    lex (c :: rest) = (lex after).map (t :: ·) := by
  obtain ⟨hs, hq, hd⟩ := classes_of_isIdentStart hc
  refine lex_cons (t := some t) ?_ hle
  simp [lexeme?, hs, hq, hd, hc, h]

/-- **A word is read as a whole.** -/
theorem lex_word {w rest : List Char} (hw : isIdentifier w = true) (hrest : NameEnd rest) :
    lex (w ++ rest) = (lex rest).map (.word w :: ·) := by
  obtain ⟨htake, hdrop⟩ :=
    takeWhile_append_of_wordEnd (fun _ hc => isIdentChar_of_mem hw hc) hrest.wordEnd
  have hword : word? (w ++ rest) = some (.word w, rest) := by
    rw [word?, htake, hdrop]
    cases rest with
    | nil => rfl
    | cons c rest =>
      obtain ⟨-, hdouble, hsingle, hhash⟩ := hrest c (by simp)
      simp [hdouble, hsingle, hhash]
  obtain ⟨c, more, rfl, hc⟩ := exists_cons_of_isIdentifier hw
  exact lex_of_word? hc hword (by simp)

/-- **A raw identifier is read as a whole**, with its mark. -/
theorem lex_raw {w rest : List Char} (hw : isIdentifier w = true) (hrest : WordEnd rest) :
    lex ('r' :: '#' :: (w ++ rest)) = (lex rest).map (.word ('r' :: '#' :: w) :: ·) := by
  obtain ⟨htake, hdrop⟩ :=
    takeWhile_append_of_wordEnd (fun _ hc => isIdentChar_of_mem hw hc) hrest
  have hword : word? ('r' :: '#' :: (w ++ rest)) = some (.word ('r' :: '#' :: w), rest) := by
    have hr : isIdentChar 'r' = true := by decide
    have hh : isIdentChar '#' = false := by decide
    simp [word?, hr, hh, htake, hdrop, hw]
  exact lex_of_word? (by decide) hword (by simp; omega)

/-! ## 5. String literals -/

theorem hexDigit?_digitChar {d : Nat} (h : d < 16) : hexDigit? (Nat.digitChar d) = some d := by
  have hall : ∀ d < 16, hexDigit? (Nat.digitChar d) = some d := by decide
  exact hall d h

theorem digitChar_ne_brace {d : Nat} (h : d < 16) : Nat.digitChar d ≠ '}' := by
  have hall : ∀ d < 16, Nat.digitChar d ≠ '}' := by decide
  exact hall d h

/-- The digits of a code point are read from the left. -/
theorem textBody?_toDigits (n value digits : Nat) (rest : List Char) :
    textBody? (.code value digits) (Nat.toDigits 16 n ++ rest) =
      textBody? (.code (Nat.pow 16 (Nat.toDigits 16 n).length * value + n)
        (digits + (Nat.toDigits 16 n).length)) rest := by
  induction n using Nat.strongRecOn generalizing rest with
  | _ n ih =>
    have hstep {d : Nat} (hd : d < 16) (v k : Nat) :
        textBody? (.code v k) (Nat.digitChar d :: rest) =
          textBody? (.code (16 * v + d) (k + 1)) rest := by
      rw [textBody?, if_neg (digitChar_ne_brace hd), hexDigit?_digitChar hd]
    by_cases hn : n < 16
    · rw [Nat.toDigits_of_lt_base hn]
      simpa using hstep hn value digits
    · have hlast : n % 16 < 16 := Nat.mod_lt _ (by decide)
      rw [Nat.toDigits_of_base_le (by decide) (by omega), List.append_assoc,
        ih (n / 16) (by omega), List.singleton_append, hstep hlast]
      have hval : 16 * (Nat.pow 16 (Nat.toDigits 16 (n / 16)).length * value + n / 16) + n % 16 =
          Nat.pow 16 ((Nat.toDigits 16 (n / 16)).length + 1) * value + n := by
        have hpow (k : Nat) : Nat.pow 16 (k + 1) = Nat.pow 16 k * 16 := rfl
        rw [hpow, Nat.mul_add]
        have := Nat.div_add_mod n 16
        rw [← Nat.mul_assoc, Nat.mul_comm 16 (Nat.pow 16 _)]
        omega
      rw [hval, List.length_append, List.length_singleton, Nat.add_assoc]

theorem textBody?_codeEscape (c : Char) (rest : List Char) :
    textBody? .no (codeEscape c ++ rest) = consValue c (textBody? .no rest) := by
  have hstart : textBody? .no (codeEscape c ++ rest) =
      textBody? (.code 0 0) (Nat.toDigits 16 c.toNat ++ '}' :: rest) := by
    simp [codeEscape, textBody?]
  have hpos : 0 < (Nat.toDigits 16 c.toNat).length := Nat.length_toDigits_pos
  have hlen : (Nat.toDigits 16 c.toNat).length ≤ 6 := by
    refine (Nat.length_toDigits_le_iff (by decide) (by decide)).2 ?_
    have := c.valid
    simp only [UInt32.isValidChar, Nat.isValidChar] at this
    change c.val.toNat < 16 ^ 6
    omega
  have hvalid : c.toNat.isValidChar := c.valid
  rw [hstart, textBody?_toDigits]
  simp [textBody?, hpos, hlen, hvalid]

/-- A backslash and a letter. -/
theorem textBody?_simpleEscape {letter c : Char} (h : simpleEscape? letter = some c)
    (hu : letter ≠ 'u') (rest : List Char) :
    textBody? .no ('\\' :: letter :: rest) = consValue c (textBody? .no rest) := by
  simp [textBody?, hu, h]

/-- An escaped character is read as the character. -/
theorem textBody?_escapeChar (c : Char) (rest : List Char) :
    textBody? .no (escapeChar c ++ rest) = consValue c (textBody? .no rest) := by
  unfold escapeChar
  split
  · subst c
    exact textBody?_simpleEscape rfl (by decide) rest
  split
  · subst c
    exact textBody?_simpleEscape rfl (by decide) rest
  split
  · subst c
    exact textBody?_simpleEscape rfl (by decide) rest
  split
  · subst c
    exact textBody?_simpleEscape rfl (by decide) rest
  split
  · subst c
    exact textBody?_simpleEscape rfl (by decide) rest
  split
  · subst c
    exact textBody?_simpleEscape rfl (by decide) rest
  split
  · exact textBody?_codeEscape c rest
  · simp [textBody?, *]

theorem textBody?_flatMap (value rest : List Char) :
    textBody? .no (value.flatMap escapeChar ++ '"' :: rest) = some (value, rest) := by
  induction value with
  | nil => simp [textBody?]
  | cons c value ih => simp [textBody?_escapeChar, ih, consValue]

/-- **A quoted text is read as the text.** -/
theorem lex_quote (value : List Char) {rest : List Char} (h : WordEnd rest) :
    lex (quote value ++ rest) = (lex rest).map (.text value :: ·) := by
  have hends : wordEnds rest = true := by
    cases rest with
    | nil => rfl
    | cons c rest => simp [wordEnds, h c (by simp)]
  have hbody := textBody?_flatMap value rest
  have hlex : lexeme? '"' (value.flatMap escapeChar ++ '"' :: rest) =
      some (some (.text value), rest) := by
    simp [lexeme?, show isSpace '"' = false by decide, hbody, hends]
  have htext : quote value ++ rest = '"' :: (value.flatMap escapeChar ++ '"' :: rest) := by
    simp [quote]
  rw [htext, lex_cons hlex (by simp; omega)]
  rfl

/-! ## 6. Numbers -/

/-- What may follow a number: no name, and no point. -/
def NumberEnd (rest : List Char) : Prop := ∀ c ∈ rest.head?, isIdentChar c = false ∧ c ≠ '.'

theorem NumberEnd.digitEnd {rest : List Char} (h : NumberEnd rest) : DigitEnd rest := by
  intro c hc
  rw [Bool.eq_false_iff]
  intro hd
  have := (h c hc).1
  simp [isIdentChar_of_isDigit hd] at this

theorem NumberEnd.wordEnds {rest : List Char} (h : NumberEnd rest) : wordEnds rest = true := by
  cases rest with
  | nil => rfl
  | cons c rest => simp [Target.wordEnds, (h c (by simp)).1]

theorem NumberEnd.fractionPart {rest : List Char} (h : NumberEnd rest) :
    fractionPart rest = ([], rest) := by
  cases rest with
  | nil => rfl
  | cons c rest => simp [Target.fractionPart, (h c (by simp)).2]

theorem NumberEnd.powerPart {rest : List Char} (h : NumberEnd rest) :
    powerPart rest = ([], rest) := by
  cases rest with
  | nil => rfl
  | cons c rest =>
    have hc := (h c (by simp)).1
    have hne : ¬(c = 'e' ∨ c = 'E') := by
      rintro (rfl | rfl) <;> exact absurd hc (by decide)
    simp [Target.powerPart, hne]

theorem lex_of_number? {ds rest after : List Char} {t : Token} (hds : Digits ds)
    (h : number? (ds ++ rest) = some (t, after)) (hle : after.length ≤ rest.length) :
    lex (ds ++ rest) = (lex after).map (t :: ·) := by
  obtain ⟨c, more, rfl⟩ := List.exists_cons_of_ne_nil hds.1
  have hd : c.isDigit = true := hds.2 c (by simp)
  have hs : isSpace c = false := by
    rw [isDigit_iff] at hd
    simp only [isSpace, Bool.or_eq_false_iff, Bool.and_eq_false_iff, decide_eq_false_iff_not,
      beq_eq_false_iff_ne]
    omega
  have hq : c ≠ '"' := by
    rintro rfl
    exact absurd hd (by decide)
  rw [List.cons_append] at h ⊢
  refine lex_cons (t := some t) ?_ (by simp only [List.length_append]; omega)
  simp [lexeme?, hs, hq, hd, h]

/-- **The digits of an integer are read as the integer.** -/
theorem lex_int (n : Nat) {rest : List Char} (h : NumberEnd rest) :
    lex (Nat.toDigits 10 n ++ rest) = (lex rest).map (.int n :: ·) := by
  have hds := digits_toDigits n
  obtain ⟨htake, hdrop⟩ := takeWhile_append_of_head hds.2 h.digitEnd
  refine lex_of_number? hds ?_ (Nat.le_refl _)
  simp [number?, htake, hdrop, h.fractionPart, h.powerPart, h.wordEnds]

/-- A fraction, or none. -/
def IsFraction (cs : List Char) : Prop := cs = [] ∨ ∃ ds, Digits ds ∧ cs = '.' :: ds

/-- A power of ten, or none. -/
def IsPower (cs : List Char) : Prop :=
  cs = [] ∨ ∃ sign ds, Digits ds ∧ (sign = [] ∨ sign = ['-']) ∧ cs = 'e' :: (sign ++ ds)

/-- A number with a fraction, a power of ten, or both. -/
def IsFloatText (cs : List Char) : Prop :=
  ∃ whole fraction power, cs = whole ++ (fraction ++ power) ∧ Digits whole ∧ IsFraction fraction ∧
    IsPower power ∧ (fraction ≠ [] ∨ power ≠ [])

/-- A number that is written with digits alone up to here goes on with no digit. -/
theorem IsPower.digitEnd {power rest : List Char} (h : IsPower power) (hrest : NumberEnd rest) :
    DigitEnd (power ++ rest) := by
  rcases h with rfl | ⟨sign, ds, -, -, rfl⟩
  · exact hrest.digitEnd
  · intro c hc
    obtain rfl : 'e' = c := by simpa using hc
    decide

theorem IsPower.powerPart {power rest : List Char} (h : IsPower power) (hrest : NumberEnd rest) :
    powerPart (power ++ rest) = (power, rest) := by
  rcases h with rfl | ⟨sign, ds, hds, hsign, rfl⟩
  · exact hrest.powerPart
  · obtain ⟨htake, hdrop⟩ := takeWhile_append_of_head hds.2 hrest.digitEnd
    have hall : ∀ c ∈ sign, (c == '-' || c == '+') = true := by
      rcases hsign with rfl | rfl <;> exact List.all_eq_true.1 rfl
    have hhead : ∀ c ∈ (ds ++ rest).head?, (c == '-' || c == '+') = false := by
      intro c hc
      obtain ⟨d, more, rfl⟩ := List.exists_cons_of_ne_nil hds.1
      obtain rfl : d = c := by simpa using hc
      have hd := hds.2 d (by simp)
      rw [Bool.eq_false_iff]
      intro h
      simp only [Bool.or_eq_true, beq_iff_eq] at h
      rcases h with rfl | rfl <;> exact absurd hd (by decide)
    obtain ⟨hsigns, hafter⟩ := takeWhile_append_of_head hall hhead
    have hlen : sign.length ≤ 1 := by rcases hsign with rfl | rfl <;> decide
    rw [List.cons_append, List.append_assoc]
    simp [Target.powerPart, hsigns, hafter, hlen, hds.startsWithDigit, htake, hdrop]

theorem IsFraction.fractionPart {fraction power rest : List Char} (h : IsFraction fraction)
    (hp : IsPower power) (hrest : NumberEnd rest) :
    fractionPart (fraction ++ (power ++ rest)) = (fraction, power ++ rest) := by
  rcases h with rfl | ⟨ds, hds, rfl⟩
  · rcases hp with rfl | ⟨sign, ds, -, -, rfl⟩
    · exact hrest.fractionPart
    · simp [Target.fractionPart]
  · obtain ⟨htake, hdrop⟩ := takeWhile_append_of_head hds.2 (hp.digitEnd hrest)
    simp [Target.fractionPart, hds.startsWithDigit, htake, hdrop]

/-- **A number with a fraction or a power of ten is read as a whole.** -/
theorem lex_float {cs rest : List Char} (h : IsFloatText cs) (hrest : NumberEnd rest) :
    lex (cs ++ rest) = (lex rest).map (.float cs :: ·) := by
  obtain ⟨whole, fraction, power, rfl, hwhole, hfraction, hpower, hne⟩ := h
  have hend : DigitEnd (fraction ++ (power ++ rest)) := by
    rcases hfraction with rfl | ⟨ds, -, rfl⟩
    · exact hpower.digitEnd hrest
    · intro c hc
      obtain rfl : '.' = c := by simpa using hc
      decide
  obtain ⟨htake, hdrop⟩ := takeWhile_append_of_head hwhole.2 hend
  have hnumber : number? (whole ++ (fraction ++ (power ++ rest))) =
      some (.float (whole ++ (fraction ++ power)), rest) := by
    have hempty : (fraction.isEmpty && power.isEmpty) = false := by
      rw [Bool.and_eq_false_iff]
      simpa using hne
    rw [number?, htake, hdrop, hfraction.fractionPart hpower hrest]
    simp only [hpower.powerPart hrest, hrest.wordEnds, hempty]
    simp
  have hlex := lex_of_number? hwhole hnumber (by simp only [List.length_append]; omega)
  simpa using hlex

/-! ## 7. Comments -/

/-- A text without marks of comments is passed over up to the end of the comment. -/
theorem afterComment?_append {cs : List Char} (h : ∀ c ∈ cs, c ≠ '*' ∧ c ≠ '/')
    (rest : List Char) : afterComment? 0 (cs ++ '*' :: '/' :: rest) = some rest := by
  induction cs with
  | nil => rfl
  | cons c cs ih =>
    obtain ⟨hstar, hslash⟩ := h c (by simp)
    have hmore := ih fun d hd => h d (by simp [hd])
    rw [List.cons_append, afterComment?.eq_def]
    simp [hstar, hslash, hmore]

/-- **A comment leaves no token.** -/
theorem lex_comment {cs : List Char} (h : ∀ c ∈ cs, c ≠ '*' ∧ c ≠ '/') (rest : List Char) :
    lex ('/' :: '*' :: (cs ++ '*' :: '/' :: rest)) = lex rest := by
  have hlexeme : lexeme? '/' ('*' :: (cs ++ '*' :: '/' :: rest)) = some (none, rest) := by
    have hclass : isSpace '/' = false ∧ Char.isDigit '/' = false ∧ isIdentStart '/' = false := by
      decide
    simp [lexeme?, hclass, List.isPrefixOf, afterComment?_append h]
  rw [lex_cons hlexeme (by simp; omega)]
  cases lex rest <;> rfl

end TemplateCompiler.Target
