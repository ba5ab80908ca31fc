import TemplateCompiler.Expr.Inner
import TemplateCompiler.Proofs.Expr.PhraseText

/-! # Reading printed operands and chains

The scanner goes through a chain from left to right, and a printed chain has its first operand
innermost.  So each lemma below is about a phrase with a text after it, and says where the
scanner stands when it has passed the phrase: at the text after it, with the phrase's
expression in hand.

What may come next is said once: `OperandEnd` for an operand, `PrimaryEnd` for a phrase that can
still get attributes and subscripts.
-/

namespace TemplateCompiler

open Text Reading

/-! ## 1. What may follow -/

/-- After an operand the text ends, or a blank and something other than an argument list
follows. -/
def OperandEnd (rest : List Char) : Prop :=
  rest = [] ∨ ∃ c more, rest = ' ' :: c :: more ∧ isBlank c = false ∧ c ≠ '('

/-- After a primary phrase an attribute or a subscript may follow as well. -/
def PrimaryEnd (rest : List Char) : Prop :=
  OperandEnd rest ∨ (∃ c more, rest = '.' :: c :: more ∧ isIdentStart c = true) ∨
    ∃ more, rest = '[' :: more

theorem PrimaryEnd.wordEnd {rest : List Char} (h : PrimaryEnd rest) : WordEnd rest := by
  rcases h with (rfl | ⟨c, more, rfl, -, -⟩) | ⟨c, more, rfl, -⟩ | ⟨more, rfl⟩
  · exact wordEnd_nil
  all_goals exact wordEnd_cons (by decide) _

theorem PrimaryEnd.callFollows {rest : List Char} (h : PrimaryEnd rest) :
    callFollows rest = false := by
  have hb : isBlank ' ' = true := by decide
  rcases h with (rfl | ⟨c, more, rfl, hc, hne⟩) | ⟨c, more, rfl, -⟩ | ⟨more, rfl⟩
  · decide
  · simp [Reading.callFollows, trimStart, hb, hc, hne]
  all_goals
    rw [Reading.callFollows, trimStart_cons_of_not_blank _ (by decide)]
    rfl

/-- No number goes on there: neither a digit, nor a fraction, nor a power of ten. -/
theorem PrimaryEnd.numberEnd {rest : List Char} (h : PrimaryEnd rest) :
    rest.takeWhile isDigitOrUnderscore = [] ∧ rest.dropWhile isDigitOrUnderscore = rest ∧
      fraction? rest = none ∧ power? rest = none := by
  have hmark {c : Char} (hc : isDigitOrUnderscore c = false) (more : List Char) :
      (c :: more).takeWhile isDigitOrUnderscore = [] ∧
        (c :: more).dropWhile isDigitOrUnderscore = c :: more :=
    ⟨List.takeWhile_cons_of_neg (by simp [hc]), List.dropWhile_cons_of_neg (by simp [hc])⟩
  rcases h with (rfl | ⟨c, more, rfl, -, -⟩) | ⟨c, more, rfl, hc⟩ | ⟨more, rfl⟩
  · decide
  · exact ⟨(hmark (by decide) _).1, (hmark (by decide) _).2, rfl, rfl⟩
  · exact ⟨(hmark (by decide) _).1, (hmark (by decide) _).2,
      by simp [fraction?, isDigit_of_isIdentStart hc], rfl⟩
  · exact ⟨(hmark (by decide) _).1, (hmark (by decide) _).2, rfl, rfl⟩

/-! ## 2. Literals and words -/

theorem Escape.unescape_letter (e : Escape) : unescape e.letter = [e.value] := by
  cases e <;> decide

theorem stringBody?_cons {q c : Char} (hc : c ≠ '\\') (rest : List Char) :
    stringBody? q (c :: rest) =
      if c = q then some ([], rest)
      else (stringBody? q rest).map fun (value, rest) => (c :: value, rest) := by
  rw [stringBody?.eq_def]
  simp [hc]

/-- A printed string literal is read as the characters its pieces stand for. -/
theorem Piece.stringBody? {q : Char} (hq : isQuote q = true) (pieces : List (Piece q))
    (rest : List Char) :
    stringBody? q (pieces.flatMap Piece.print ++ q :: rest) =
      some (pieces.map Piece.value, rest) := by
  have hb : q ≠ '\\' := (classes_of_isQuote hq).2.2.2.2
  induction pieces with
  | nil => simp [stringBody?_cons hb]
  | cons piece pieces ih =>
    cases piece with
    | raw c hc hraw => simp [Piece.print, Piece.value, stringBody?_cons hraw, hc, ih]
    | escape e => simp [Piece.print, Piece.value, Reading.stringBody?, e.unescape_letter, ih]

/-- Digits alone are an integer. -/
theorem number_append {digits rest : List Char} (h : ∀ c ∈ digits, c.isDigit = true)
    (hrest : PrimaryEnd rest) :
    number (digits ++ rest) = (integer digits true).map (·, rest) := by
  obtain ⟨htake, hdrop, hfrac, hpow⟩ := hrest.numberEnd
  have hall : ∀ c ∈ digits, isDigitOrUnderscore c = true := fun c hc => by
    simp [isDigitOrUnderscore, h c hc]
  have hfilter : digitsOf digits = digits := by
    refine List.filter_eq_self.2 fun c hc => ?_
    have hne : c ≠ '_' := by
      rintro rfl
      exact absurd (h '_' hc) (by decide)
    simpa using hne
  have hplain : digits.all Char.isDigit = true := List.all_eq_true.2 h
  simp only [number, List.takeWhile_append_of_pos hall, List.dropWhile_append_of_pos hall, htake,
    hdrop, hfrac, hpow, List.append_nil, hfilter, hplain]

/-- Printed digits are read as the integer they spell. -/
theorem number_digits {digits rest : List Char} (h : IsInteger digits) (hrest : PrimaryEnd rest) :
    number (digits ++ rest) = .ok (.int (decimalValue digits) true, rest) := by
  have hvalue : ofDigits digits = decimalValue digits := Nat.ofDigitChars_eq_foldl
  have hlt : decimalValue digits < integerLimit := h.value_lt
  rw [number_append h.digits.2 hrest, integer, hvalue, if_pos hlt]
  rfl

theorem Constant.constant?_print (c : Constant) : constant? c.print = some c.expr := by
  cases c with
  | yes capital => cases capital <;> decide
  | no capital => cases capital <;> decide
  | nothing capital => cases capital <;> decide

/-- A printed word is read as a whole. -/
theorem word_append {n rest : List Char} (hn : isIdentifier n = true) (hrest : PrimaryEnd rest) :
    word (n ++ rest) =
      match constant? n with
      | some e => .ok (e, rest)
      | none => if isReservedWord n then .error (.unexpectedKeyword n) else .ok (.name n, rest) := by
  obtain ⟨htake, hdrop⟩ :=
    takeWhile_append_of_wordEnd (fun _ hc => isIdentChar_of_mem hn hc) hrest.wordEnd
  simp only [word, htake, hdrop, hrest.callFollows]
  rfl

theorem blame_ok {α : Type} (source : List Char) (a : α) : blame source (.ok a) = .ok a := rfl

/-- A text that starts with a letter or an underscore is read as a word. -/
theorem primary_word {n rest : List Char} (self : Reader) (source : List Char)
    (hn : isIdentifier n = true) :
    primary self source (n ++ rest) = blame source (word (n ++ rest)) := by
  obtain ⟨c, more, rfl, hc⟩ := exists_cons_of_isIdentifier hn
  obtain ⟨hq, ho, -⟩ := isPlain_iff.1 (isPlain_of_isIdentChar (isIdentChar_of_isIdentStart hc))
  have hne : c ≠ '(' ∧ c ≠ '[' ∧ c ≠ '{' := by
    refine ⟨?_, ?_, ?_⟩ <;> rintro rfl <;> exact absurd ho (by decide)
  simp [primary, hq, isDigit_of_isIdentStart hc, hne, hc]

/-! ## 3. Primary phrases -/

/-- A primary expression and its postfixes. -/
def accessed (source cs : List Char) : Except Refusal (Expr × List Char) := do
  let (e, rest) ← primary Expr.read source cs
  postfixes Expr.read source e rest

theorem accessed_of_primary {source cs rest : List Char} {e : Expr}
    (h : primary Expr.read source cs = .ok (e, rest)) :
    accessed source cs = postfixes Expr.read source e rest := by
  rw [accessed, h]
  rfl

/-- The scanner passes a primary phrase: what is left are the postfixes after it. -/
def Phrase.Accessed (p : Phrase .primary) : Prop :=
  ∀ source rest : List Char, PrimaryEnd rest →
    accessed source (p.print ++ rest) = postfixes Expr.read source p.expr rest

theorem Phrase.accessed_text {q : Char} (hq : isQuote q = true) (pieces : List (Piece q)) :
    (Phrase.text q hq pieces).Accessed := by
  intro source rest _
  refine accessed_of_primary ?_
  have hbody := Piece.stringBody? hq pieces rest
  simp [print, expr, primary, hq, hbody]

/-- A text that starts with a digit is read as a number. -/
theorem primary_digit {c : Char} (self : Reader) (source rest : List Char)
    (hc : c.isDigit = true) :
    primary self source (c :: rest) = blame source (number (c :: rest)) := by
  have hq := (isPlain_iff.1 (isPlain_of_isIdentChar (isIdentChar_of_isDigit hc))).1
  simp [primary, hq, hc]

theorem Phrase.accessed_int {digits : List Char} (h : IsInteger digits) :
    (Phrase.int digits h).Accessed := by
  intro source rest hrest
  refine accessed_of_primary ?_
  have hnumber := number_digits h hrest
  obtain ⟨c, more, rfl⟩ := List.exists_cons_of_ne_nil h.digits.1
  have hc := h.digits.2 c (by simp)
  simp only [List.cons_append] at hnumber
  simp [print, expr, primary_digit _ _ _ hc, hnumber, blame_ok]

theorem Phrase.accessed_constant (c : Constant) : (Phrase.constant c).Accessed := by
  intro source rest hrest
  refine accessed_of_primary ?_
  have hn := c.isIdentifier_print
  rw [print, primary_word _ _ hn, word_append hn hrest, c.constant?_print]
  rfl

theorem Phrase.accessed_name {n : List Char} (h : IsVariable n) : (Phrase.name n h).Accessed := by
  intro source rest hrest
  refine accessed_of_primary ?_
  rw [print, primary_word _ _ h.isIdentifier, word_append h.isIdentifier hrest,
    h.constant?_eq_none, h.isReservedWord_eq_false]
  rfl

/-- A text in parentheses is a group, if it shows no comma. -/
theorem primary_group {P : Char → Prop} {source inner rest : List Char} {e : Expr}
    (hinner : Balanced P inner) (hcomma : ¬ P ',') (hblank : isBlankText inner = false)
    (h : Expr.read inner = .ok e) :
    primary Expr.read source ('(' :: (inner ++ ')' :: rest)) = .ok (.group e, rest) := by
  have hclose := hinner.matchingClose (c := ')') (by decide) rest
  have hcomma : hasChar ',' inner = false := hinner.hasChar (by decide) fun c hc => by
    rintro rfl
    exact hcomma hc
  have hq : isQuote '(' = false := by decide
  have hd : Char.isDigit '(' = false := by decide
  simp [primary, hq, hd, hclose, hblank, hcomma, h, Functor.map, Except.map]

theorem Phrase.accessed_group {inner : Phrase .disjunction}
    (h : Expr.read inner.print = .ok inner.expr) : (Phrase.group inner).Accessed := by
  intro source rest _
  refine accessed_of_primary ?_
  have hprimary : primary Expr.read source ('(' :: (inner.print ++ ')' :: rest)) =
      .ok (.group inner.expr, rest) :=
    primary_group inner.balanced (fun hc => hc.1 rfl) inner.tight.isBlankText h
  simpa [print, expr] using hprimary

theorem Phrase.accessed_attr {subject : Phrase .primary} {n : List Char}
    (hn : isIdentifier n = true) (h : subject.Accessed) : (Phrase.attr subject n hn).Accessed := by
  intro source rest hrest
  obtain ⟨htake, hdrop⟩ :=
    takeWhile_append_of_wordEnd (fun _ hd => isIdentChar_of_mem hn hd) hrest.wordEnd
  obtain ⟨c, more, rfl, hc⟩ := exists_cons_of_isIdentifier hn
  rw [List.cons_append] at htake hdrop
  have hattr : attributeAfter subject.expr (c :: (more ++ rest)) =
      .ok (.attr subject.expr (c :: more), rest) := by
    simp [attributeAfter, htake, hdrop, hrest.callFollows, isDigit_of_isIdentStart hc]
  have htext : (Phrase.attr subject (c :: more) hn).print ++ rest =
      subject.print ++ '.' :: c :: (more ++ rest) := by
    simp [print]
  rw [htext, h source _ (.inr (.inl ⟨c, more ++ rest, rfl, hc⟩)), postfixes_cons, if_pos rfl,
    hattr]
  rfl

/-- A text in square brackets is a subscript, if it shows no colon.  Blanks around the key do not
matter. -/
theorem postfixes_item {P : Char → Prop} {source key rest : List Char} {subject e : Expr}
    (hkey : Balanced P key) (hcolon : hasChar ':' (trim key) = false)
    (hne : (trim key).isEmpty = false) (h : Expr.read (trim key) = .ok e) :
    postfixes Expr.read source subject ('[' :: (key ++ ']' :: rest)) =
      postfixes Expr.read source (.item subject e) rest := by
  have hclose := hkey.matchingClose (c := ']') (by decide) rest
  rw [postfixes_cons, if_neg (by decide), if_pos rfl, hclose]
  simp only [hne, hcolon, h]
  rfl

theorem Phrase.accessed_item {subject : Phrase .primary} {key : Phrase .disjunction}
    (h : subject.Accessed) (hkey : Expr.read key.print = .ok key.expr) :
    (Phrase.item subject key).Accessed := by
  intro source rest _
  have hcolon : hasChar ':' key.print = false :=
    key.balanced.hasChar (by decide) fun _ hc => hc.2
  have htrim := key.tight.trim_self
  have htext : (Phrase.item subject key).print ++ rest =
      subject.print ++ '[' :: (key.print ++ ']' :: rest) := by
    simp [print]
  rw [htext, h source _ (.inr (.inr ⟨_, rfl⟩)),
    postfixes_item key.balanced (by rw [htrim, hcolon]) (by rw [htrim, key.tight.isEmpty])
      (by rw [htrim, hkey])]
  rfl

/-! ## 4. Signs and filters -/

/-- The first character of a primary phrase is neither a blank nor a sign. -/
theorem Phrase.head_print {r : Rank} (p : Phrase r) (hr : r = .primary) :
    ∃ c more, p.print = c :: more ∧ isBlank c = false ∧ c ≠ '-' ∧ c ≠ '+' := by
  have hident {cs : List Char} (hne : cs ≠ []) (h : ∀ c ∈ cs, isIdentChar c = true) :
      ∃ c more, cs = c :: more ∧ isBlank c = false ∧ c ≠ '-' ∧ c ≠ '+' := by
    obtain ⟨c, more, rfl⟩ := List.exists_cons_of_ne_nil hne
    have hc := h c (by simp)
    refine ⟨c, more, rfl, isBlank_of_isIdentChar hc, ?_, ?_⟩
    · rintro rfl
      exact absurd hc (by decide)
    · rintro rfl
      exact absurd hc (by decide)
  have hname {n : List Char} (h : isIdentifier n = true) :=
    hident (ne_nil_of_isIdentifier h) fun _ hc => isIdentChar_of_mem h hc
  induction p with
  | text q hq pieces =>
    refine ⟨q, _, rfl, ?_⟩
    rcases isQuote_iff.1 hq with rfl | rfl <;> decide
  | int digits h => exact hident h.digits.1 fun c hc => isIdentChar_of_isDigit (h.digits.2 c hc)
  | constant c => exact hname c.isIdentifier_print
  | name n h => exact hname h.isIdentifier
  | group inner _ => exact ⟨'(', _, rfl, by decide⟩
  | attr subject n h ih =>
    obtain ⟨c, more, hp, hc⟩ := ih rfl
    exact ⟨c, more ++ '.' :: n, by simp [print, hp], hc⟩
  | item subject key ih _ =>
    obtain ⟨c, more, hp, hc⟩ := ih rfl
    exact ⟨c, more ++ '[' :: (key.print ++ [']']), by simp [print, hp], hc⟩
  | lift h inner _ => subst hr; cases h
  | _ => cases hr

/-- A primary expression with its postfixes and the signs before it. -/
def signedOperand (source cs : List Char) : Except Refusal (Expr × List Char) := do
  let (e, rest) ← accessed source (signs cs).2
  return ((signs cs).1.foldr applySign e, rest)

/-- The filters of an operand come last. -/
theorem operand_eq (source cs : List Char) :
    operand Expr.read source cs =
      (signedOperand source cs).bind fun (e, rest) => filters source e rest := by
  unfold operand signedOperand accessed
  dsimp only
  cases primary Expr.read source (signs cs).2 with
  | error r => rfl
  | ok a =>
    dsimp only [bind, Except.bind]
    cases postfixes Expr.read source a.1 a.2 with
    | error r => rfl
    | ok b => rfl

/-- An operand without signs and filters, up to the end of the text. -/
theorem operand_of_accessed {source cs : List Char} {e : Expr} (hsigns : signs cs = ([], cs))
    (h : accessed source cs = .ok (e, [])) : operand Expr.read source cs = .ok (e, []) := by
  have hsigned : signedOperand source cs = .ok (e, []) := by
    rw [signedOperand, hsigns]
    dsimp only
    rw [h]
    rfl
  rw [operand_eq, hsigned]
  dsimp only [Except.bind]
  rw [filters_eq]
  rfl

/-- A text that starts with neither a blank nor a sign has no signs. -/
theorem signs_cons {c : Char} (rest : List Char) (hblank : isBlank c = false) (hminus : c ≠ '-')
    (hplus : c ≠ '+') : signs (c :: rest) = ([], c :: rest) := by
  simp [signs, hblank, hminus, hplus]

theorem operand_blank_cons (source cs : List Char) :
    operand Expr.read source (' ' :: cs) = operand Expr.read source cs := by
  have hs : signs (' ' :: cs) = signs cs := rfl
  rw [operand, operand, hs]

theorem signedOperand_sign {source cs rest : List Char} {e : Expr} {s : Char}
    (hs : s = '-' ∨ s = '+') (h : signedOperand source cs = .ok (e, rest)) :
    signedOperand source (s :: cs) = .ok (applySign s e, rest) := by
  have hb : isBlank s = false := by rcases hs with rfl | rfl <;> decide
  have hsigns : signs (s :: cs) = (s :: (signs cs).1, (signs cs).2) := by
    simp [signs, hb, hs]
  unfold signedOperand at h ⊢
  rw [hsigns]
  cases ha : accessed source (signs cs).2 with
  | error r =>
    rw [ha] at h
    cases h
  | ok a =>
    rw [ha] at h
    cases h
    rfl

/-- Postfixes end where an operand ends. -/
theorem OperandEnd.postfixes {rest : List Char} (h : OperandEnd rest) (source : List Char)
    (e : Expr) : postfixes Expr.read source e rest = .ok (e, rest) := by
  rcases h with rfl | ⟨c, more, rfl, -, -⟩
  · exact postfixes_nil _ _ _
  · rw [postfixes_cons]
    rfl

/-- The scanner passes a signed phrase. -/
def Phrase.Signed (p : Phrase .signed) : Prop :=
  ∀ source rest : List Char, OperandEnd rest →
    signedOperand source (p.print ++ rest) = .ok (p.expr, rest)

theorem Phrase.signed_lift {p : Phrase .primary} (h : p.Accessed) :
    (Phrase.lift .primary p).Signed := by
  intro source rest hrest
  obtain ⟨c, more, hp, hb, hminus, hplus⟩ := p.head_print rfl
  have hsigns : signs (p.print ++ rest) = ([], p.print ++ rest) := by
    rw [hp]
    simp [signs, hb, hminus, hplus]
  rw [print, expr, signedOperand, hsigns, h source rest (.inl hrest), hrest.postfixes]
  rfl

theorem Phrase.signed_sign (negative : Bool) {p : Phrase .signed} (h : p.Signed) :
    (Phrase.sign negative p).Signed := by
  intro source rest hrest
  cases negative with
  | false => exact signedOperand_sign (.inr rfl) (h source rest hrest)
  | true => exact signedOperand_sign (.inl rfl) (h source rest hrest)

/-- A printed filter is read as a whole, its arguments are passed over. -/
theorem Filter.oneFilter_print (f : Filter) (e : Expr) {rest : List Char} (h : OperandEnd rest) :
    oneFilter e (' ' :: (f.print ++ rest)) = .ok (f.apply e, rest) := by
  have hend : WordEnd (f.argumentText ++ rest) := by
    cases ha : f.arguments with
    | none =>
      rw [argumentText, ha]
      exact PrimaryEnd.wordEnd (.inl h)
    | some a =>
      rw [argumentText, ha]
      exact wordEnd_cons (by decide) _
  have hskip : skipArguments (f.argumentText ++ rest) = .ok (f.arguments.isSome, rest) := by
    cases ha : f.arguments with
    | none =>
      rw [argumentText, ha]
      rcases h with rfl | ⟨c, more, rfl, -, -⟩ <;> rfl
    | some a =>
      have hclose := (f.balanced_arguments a ha).matchingClose (c := ')') (by decide) rest
      simp [argumentText, ha, skipArguments, hclose]
  have htrim : trimStart (' ' :: (f.print ++ rest)) = f.name ++ (f.argumentText ++ rest) := by
    have htight := f.tight_print.trimStart rest
    rw [print, List.append_assoc] at htight
    simpa [print, trimStart, show isBlank ' ' = true by decide] using htight
  obtain ⟨htake, hdrop⟩ :=
    takeWhile_append_of_wordEnd (fun _ hc => isIdentChar_of_mem f.isIdentifier_name hc) hend
  have hhead : f.name.head?.any isIdentStart = true := by
    obtain ⟨c, more, hn, hc⟩ := exists_cons_of_isIdentifier f.isIdentifier_name
    rw [hn]
    exact hc
  simp only [oneFilter, htrim, htake, hdrop, hhead, hskip, apply, Bool.not_true, Bool.false_eq_true,
    if_false, bind, Except.bind]
  split
  · rename_i hn
    rw [f.arguments_toJson hn]
    rfl
  · rfl

/-- The scanner passes an operand: what is left are the filters after it. -/
def Phrase.Filtered (p : Phrase .operand) : Prop :=
  ∀ source rest : List Char, OperandEnd rest →
    operand Expr.read source (p.print ++ rest) = filters source p.expr rest

theorem Phrase.filtered_lift {p : Phrase .signed} (h : p.Signed) :
    (Phrase.lift .signed p).Filtered := by
  intro source rest hrest
  rw [print, expr, operand_eq, h source rest hrest]
  rfl

theorem Phrase.filtered_filter {p : Phrase .operand} (f : Filter) (h : p.Filtered) :
    (Phrase.filter p f).Filtered := by
  intro source rest hrest
  have htext : (Phrase.filter p f).print ++ rest =
      p.print ++ ' ' :: '|' :: ' ' :: (f.print ++ rest) := by
    simp [print, spaced]
  have htrim : trimStart (' ' :: '|' :: ' ' :: (f.print ++ rest)) =
      '|' :: ' ' :: (f.print ++ rest) := rfl
  rw [htext, h source _ (.inr ⟨'|', _, rfl, by decide⟩), filters_eq, htrim]
  simp only [if_true, f.oneFilter_print p.expr hrest, expr]

/-! ## 5. Chains -/

/-- Where a chain may be continued: the text ends, or an operator between blanks follows. -/
def ChainEnd (rest : List Char) : Prop :=
  rest = [] ∨ ∃ (op : BinOp) (more : List Char), rest = ' ' :: (op.symbol ++ ' ' :: more)

/-- The symbol of an operator starts with no blank, bar or bracket. -/
theorem BinOp.head_symbol (op : BinOp) :
    ∃ c more, op.symbol = c :: more ∧ isBlank c = false ∧ c ≠ '(' ∧ c ≠ '|' := by
  cases op <;> exact ⟨_, _, rfl, by decide⟩

theorem BinOp.operator_symbol (op : BinOp) (more : List Char) {c : Char} {rest : List Char}
    (h : op.symbol ++ ' ' :: more = c :: rest) : operator c rest = .ok (op, ' ' :: more) := by
  cases op <;> cases h <;> rfl

theorem ChainEnd.operandEnd {rest : List Char} (h : ChainEnd rest) : OperandEnd rest := by
  rcases h with rfl | ⟨op, more, rfl⟩
  · exact .inl rfl
  · obtain ⟨c, symbol, hs, hb, hp, -⟩ := op.head_symbol
    exact .inr ⟨c, symbol ++ ' ' :: more, by simp [hs], hb, hp⟩

theorem ChainEnd.filters {rest : List Char} (h : ChainEnd rest) (source : List Char) (e : Expr) :
    filters source e rest = .ok (e, trimStart rest) := by
  rw [filters_eq]
  rcases h with rfl | ⟨op, more, rfl⟩
  · rfl
  · obtain ⟨c, symbol, hs, hb, -, hbar⟩ := op.head_symbol
    simp [hs, trimStart, show isBlank ' ' = true by decide, hb, hbar]

/-- The chain in a text, with as many operands as it may have. -/
def chainFrom (source : List Char) (before : Option (Expr × BinOp)) (compared : Bool)
    (cs : List Char) : Except Refusal Expr :=
  chain Expr.read source (cs.length + 1) before compared cs

/-- The chain after its first operands, which are in `e`. -/
def chainAfter (source : List Char) (e : Expr) (compared : Bool) (rest : List Char) :
    Except Refusal Expr :=
  match trimStart rest with
  | [] => .ok e
  | c :: rest => do
    let (op, rest) ← blame source (operator c rest)
    if op.isComparison && compared then blame source (.error .chainedComparisons)
    else chainFrom source (some (e, op)) (compared || op.isComparison) rest

/-- **One operand of a chain.** -/
theorem chainFrom_operand {source cs rest : List Char} {e : Expr} (before : Option (Expr × BinOp))
    (compared : Bool) (h : operand Expr.read source cs = .ok (e, trimStart rest)) :
    chainFrom source before compared cs = chainAfter source (extend before e) compared rest := by
  have hlen := length_operand_lt h
  unfold chainFrom chainAfter chain
  rw [h]
  dsimp only [bind, Except.bind]
  cases hrest : trimStart rest with
  | nil => rfl
  | cons c more =>
    rw [hrest, List.length_cons] at hlen
    dsimp only
    cases hop : blame source (operator c more) with
    | error r => rfl
    | ok a =>
      have hle := length_operator_le (eq_ok_of_blame hop)
      dsimp only
      rw [chainFrom, chain_eq_of_lt source _ _ (by omega) (Nat.lt_succ_self _)]

/-- An operand in a chain. -/
theorem Phrase.Filtered.chainFrom {p : Phrase .operand} (h : p.Filtered) (source : List Char)
    (before : Option (Expr × BinOp)) (compared : Bool) {rest : List Char} (hrest : ChainEnd rest) :
    chainFrom source before compared (p.print ++ rest) =
      chainAfter source (extend before p.expr) compared rest :=
  chainFrom_operand before compared
    (by rw [h source rest hrest.operandEnd, hrest.filters])

/-- An operator and an operand at the end of a chain.  The operator must not be a second
comparison. -/
theorem Phrase.Filtered.chainAfter {p : Phrase .operand} (h : p.Filtered) (source : List Char)
    (e : Expr) (op : BinOp) {compared : Bool} (hop : (op.isComparison && compared) = false)
    {rest : List Char} (hrest : ChainEnd rest) :
    chainAfter source e compared (' ' :: (op.symbol ++ ' ' :: (p.print ++ rest))) =
      chainAfter source (.binary e op p.expr) (compared || op.isComparison) rest := by
  obtain ⟨c, symbol, hs, hb, -⟩ := op.head_symbol
  have htrim : trimStart (' ' :: (op.symbol ++ ' ' :: (p.print ++ rest))) =
      c :: (symbol ++ ' ' :: (p.print ++ rest)) := by
    simp [hs, trimStart, show isBlank ' ' = true by decide, hb]
  have hread : operator c (symbol ++ ' ' :: (p.print ++ rest)) =
      .ok (op, ' ' :: (p.print ++ rest)) :=
    op.operator_symbol _ (by simp [hs])
  have hnext : operand Expr.read source (' ' :: (p.print ++ rest)) =
      .ok (p.expr, trimStart rest) := by
    rw [operand_blank_cons, h source rest hrest.operandEnd, hrest.filters]
  rw [TemplateCompiler.chainAfter, htrim]
  dsimp only
  rw [hread, blame_ok]
  simp only [bind, Except.bind, hop, Bool.false_eq_true, if_false]
  exact chainFrom_operand _ _ hnext

/-- The scanner passes a chain: what is left is the chain after it. -/
def Phrase.Chained {compares : Bool} (p : Phrase (.chain compares)) : Prop :=
  ∀ source rest : List Char, ChainEnd rest →
    chainFrom source none false (p.print ++ rest) = chainAfter source p.expr compares rest

theorem Phrase.chained_lift {p : Phrase .operand} (h : p.Filtered) :
    (Phrase.lift .operand p).Chained :=
  fun source _ hrest => h.chainFrom source none false hrest

/-- A chain goes on with an operator and an operand. -/
theorem Phrase.Chained.extend {compares : Bool} {left : Phrase (.chain compares)}
    {right : Phrase .operand} (hl : left.Chained) (hr : right.Filtered) (op : BinOp)
    (hop : (op.isComparison && compares) = false) (source : List Char) {rest : List Char}
    (hrest : ChainEnd rest) :
    TemplateCompiler.chainFrom source none false
        (spaced left.print op.symbol right.print ++ rest) =
      TemplateCompiler.chainAfter source (.binary left.expr op right.expr)
        (compares || op.isComparison) rest := by
  have htext : spaced left.print op.symbol right.print ++ rest =
      left.print ++ ' ' :: (op.symbol ++ ' ' :: (right.print ++ rest)) := by
    simp [spaced]
  rw [htext, hl source _ (.inr ⟨op, _, rfl⟩), hr.chainAfter source _ op hop hrest]

theorem isComparison_eq_decide_mem (op : BinOp) :
    op.isComparison = decide (op ∈ comparisons) := by
  cases op <;> rfl

theorem Phrase.chained_arith {compares : Bool} {left : Phrase (.chain compares)} {op : BinOp}
    {right : Phrase .operand} (hop : op ∉ comparisons) (hl : left.Chained)
    (hr : right.Filtered) : (Phrase.arith left op hop right).Chained := by
  intro source rest hrest
  have hfalse : op.isComparison = false := by simp [isComparison_eq_decide_mem, hop]
  have h := hl.extend hr op (by simp [hfalse]) source hrest
  rwa [hfalse, Bool.or_false] at h

theorem Phrase.chained_compare {left : Phrase (.chain false)} {op : BinOp}
    {right : Phrase .operand} (hop : op ∈ comparisons) (hl : left.Chained)
    (hr : right.Filtered) : (Phrase.compare left op hop right).Chained := by
  intro source rest hrest
  have htrue : op.isComparison = true := by simp [isComparison_eq_decide_mem, hop]
  have h := hl.extend hr op (by simp) source hrest
  rwa [htrue, Bool.or_true] at h

/-- **A printed chain on its own is read as the chain.** -/
theorem Phrase.Chained.chain_print {compares : Bool} {p : Phrase (.chain compares)}
    (h : p.Chained) :
    chain Expr.read p.print (p.print.length + 1) none false p.print = .ok p.expr := by
  have := h p.print [] (.inl rfl)
  rw [List.append_nil] at this
  exact this

end TemplateCompiler
