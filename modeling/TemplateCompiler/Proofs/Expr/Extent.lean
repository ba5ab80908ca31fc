import TemplateCompiler.Proofs.Expr.Accepted
import TemplateCompiler.Proofs.Text.Pairing
import TemplateCompiler.Proofs.Text.Trim
import TemplateCompiler.Target.Lower

/-! # What an operand takes from a text

The reader of a chain goes through the text from left to right.  Each of its functions stops at a
place where every bracket and every literal that it met is closed (`Spans`), and outside of them it
passes only blanks, characters of names and four marks: comparison signs it leaves to the chain.

* `Quiet`, `OperandText` and `ExprText` are balanced texts that show certain characters only at top
  level: no comparison sign, the characters of operands, the characters of operands and operators.
  Each is `Text.Balanced` at a predicate of its own, so they share its lemmas.
* There is one lemma a function of the reader (sections 2 and 3).  It says what the function took,
  not what it made of it; the functions that read inner texts are not asked about them.
* An accepted text is balanced, and what it shows at top level are the characters of operands and of
  operators (`Accepted.exprText`, section 5).

So the brackets of an expression that compiles can be paired (`bracketPairs?_of_compileExpr`).  That
the two brackets of a pair are of one kind is not checked anywhere, neither for parentheses and
subscripts nor for the arguments of a filter, which nobody reads (`compileExpr_mixed_brackets`).
-/

namespace TemplateCompiler

open Text Reading

namespace Reading

/-! ## 1. Balanced parts of a text -/

/-- A character of which comparison operators are made. -/
def isSign (c : Char) : Bool := c == '=' || c == '!' || c == '<' || c == '>'

/-- Names and numbers are made of no comparison signs; nor do brackets count as such. -/
theorem isSign_of_isIdentChar {c : Char} (h : isIdentChar c = true) : isSign c = false := by
  rw [Bool.eq_false_iff]
  intro hc
  simp only [isSign, Bool.or_eq_true, beq_iff_eq] at hc
  rcases hc with ((rfl | rfl) | rfl) | rfl <;> exact absurd h (by decide)

theorem isSign_of_isOpening {c : Char} (h : isOpening c = true) : isSign c = false := by
  rcases isOpening_iff.1 h with rfl | rfl | rfl <;> decide

theorem isSign_of_isClosing {c : Char} (h : isClosing c = true) : isSign c = false := by
  rcases isClosing_iff.1 h with rfl | rfl | rfl <;> decide

/-- A character that an operand may show at top level. -/
def isOperandChar (c : Char) : Bool :=
  isWordChar c || c == '+' || c == '-' || c == '.' || c == '|'

/-- Words may stand in an operand, and so may blanks. -/
theorem isOperandChar_of_isWordChar {c : Char} (h : isWordChar c = true) :
    isOperandChar c = true := by
  simp [isOperandChar, h]

theorem isOperandChar_of_isBlank {c : Char} (h : isBlank c = true) : isOperandChar c = true :=
  isOperandChar_of_isWordChar (by simp [isWordChar, h])

theorem isOperandChar_of_isIdentChar {c : Char} (h : isIdentChar c = true) :
    isOperandChar c = true :=
  isOperandChar_of_isWordChar (by simp [isWordChar, h])

/-- A mark that is none of the four, no blank and no character of a name is in no operand. -/
theorem ne_of_isOperandChar {c mark : Char} (hmark : isOperandChar mark = false)
    (h : isOperandChar c = true) : c ≠ mark := by
  rintro rfl
  simp [hmark] at h

/-- Nothing that an operand shows at top level opens or closes anything. -/
theorem isPlain_of_isOperandChar {c : Char} (h : isOperandChar c = true) : isPlain c = true := by
  have hne {mark : Char} (hmark : isOperandChar mark = false) : c ≠ mark :=
    ne_of_isOperandChar hmark h
  simp (disch := decide) [isPlain, isQuote, isOpening, isClosing, hne]

/-- Nor is it a comparison sign: where an operand ends, the chain takes over. -/
theorem isSign_of_isOperandChar {c : Char} (h : isOperandChar c = true) : isSign c = false := by
  have hne {mark : Char} (hmark : isOperandChar mark = false) : c ≠ mark :=
    ne_of_isOperandChar hmark h
  simp (disch := decide) [isSign, hne]

/-- Balanced, and without a comparison sign at top level. -/
abbrev Quiet : List Char → Prop := Balanced fun c => isSign c = false

/-- Balanced, and at top level made of the characters of operands. -/
abbrev OperandText : List Char → Prop := Balanced fun c => isOperandChar c = true

/-- So in an operand every comparison sign is within brackets or in a literal. -/
theorem OperandText.quiet {cs : List Char} (h : OperandText cs) : Quiet cs :=
  h.mono fun _ => isSign_of_isOperandChar

/-- From `cs` on, a text of operands leads to `rest`. -/
def Spans (cs rest : List Char) : Prop := ∃ used, cs = used ++ rest ∧ OperandText used

/-- A reader that takes nothing. -/
theorem spans_refl (cs : List Char) : Spans cs cs := ⟨[], rfl, .nil⟩

/-- Readers one after the other. -/
theorem Spans.trans {as bs cs : List Char} (h : Spans as bs) (h' : Spans bs cs) : Spans as cs := by
  obtain ⟨used, rfl, hused⟩ := h
  obtain ⟨more, rfl, hmore⟩ := h'
  exact ⟨used ++ more, by simp, hused.append hmore⟩

/-- One character more in front. -/
theorem Spans.cons {c : Char} {cs rest : List Char} (hc : isOperandChar c = true)
    (h : Spans cs rest) : Spans (c :: cs) rest := by
  obtain ⟨used, rfl, hused⟩ := h
  exact ⟨c :: used, rfl, .plain (isPlain_of_isOperandChar hc) hc hused⟩

/-- A run of characters of one class. -/
theorem spans_dropWhile {p : Char → Bool}
    (hp : ∀ c, p c = true → isOperandChar c = true) (cs : List Char) :
    Spans cs (cs.dropWhile p) := by
  refine ⟨cs.takeWhile p, List.takeWhile_append_dropWhile.symm, Balanced.of_plain fun c hc => ?_⟩
  have hchar := hp c (List.all_eq_true.1 List.all_takeWhile c hc)
  exact ⟨isPlain_of_isOperandChar hchar, hchar⟩

theorem spans_word (cs : List Char) : Spans cs (cs.dropWhile isIdentChar) :=
  spans_dropWhile (fun _ => isOperandChar_of_isIdentChar) cs

theorem spans_trimStart (cs : List Char) : Spans cs (trimStart cs) :=
  spans_dropWhile (fun _ => isOperandChar_of_isBlank) cs

/-- A bracket with what it holds. -/
theorem spans_matchingClose {o : Char} {cs inner after : List Char} (ho : isOpening o = true)
    (h : matchingClose cs = some (inner, after)) : Spans (o :: cs) after := by
  obtain ⟨hinner, c, hc, rfl⟩ := balanced_of_matchingClose h
  exact ⟨o :: (inner ++ [c]), by simp, hinner.bracketed ho hc⟩

/-- A string literal. -/
theorem literalBody_of_stringBody? {q : Char} {cs value rest : List Char}
    (h : stringBody? q cs = some (value, rest)) :
    ∃ body, LiteralBody q body ∧ cs = body ++ q :: rest := by
  fun_induction stringBody? q cs generalizing value with
  | case1 => cases h
  | case2 => cases h
  | case3 d rest' ih =>
    obtain ⟨⟨value', rest''⟩, hmore, he⟩ := Option.map_eq_some_iff.1 h
    cases he
    obtain ⟨body, hbody, hcs⟩ := ih hmore
    exact ⟨'\\' :: d :: body, .escape hbody, by rw [hcs]; rfl⟩
  | case4 =>
    cases h
    exact ⟨[], .nil, rfl⟩
  | case5 c rest' hc hq ih =>
    obtain ⟨⟨value', rest''⟩, hmore, he⟩ := Option.map_eq_some_iff.1 h
    cases he
    obtain ⟨body, hbody, hcs⟩ := ih hmore
    exact ⟨c :: body, .plain hc hq hbody, by rw [hcs]; rfl⟩

/-! ## 2. Literals and words -/

theorem isOperandChar_of_isDigit {c : Char} (h : c.isDigit = true) : isOperandChar c = true :=
  isOperandChar_of_isIdentChar (isIdentChar_of_isDigit h)

theorem isOperandChar_of_isDigitOrUnderscore (c : Char) (h : isDigitOrUnderscore c = true) :
    isOperandChar c = true := by
  simp only [isDigitOrUnderscore, Bool.or_eq_true, beq_iff_eq] at h
  rcases h with h | rfl
  · exact isOperandChar_of_isDigit h
  · decide

/-- A point with the digits behind it. -/
theorem spans_fraction? {cs part rest : List Char} (h : fraction? cs = some (part, rest)) :
    Spans cs rest := by
  unfold fraction? at h
  split at h
  · rename_i d more
    split at h
    · cases h
      exact (spans_dropWhile isOperandChar_of_isDigitOrUnderscore _).cons (by decide)
    · cases h
  · cases h

/-- The sign of a power is one of the four marks. -/
theorem spans_signPart (cs : List Char) : Spans cs (signPart cs).2 := by
  unfold signPart
  split
  · exact spans_refl _
  · split
    · rename_i hc
      rcases hc with rfl | rfl <;> exact (spans_refl _).cons (by decide)
    · exact spans_refl _

/-- A power of ten: its letter, its sign and its digits. -/
theorem spans_power? {cs mark power rest : List Char} (h : power? cs = some (mark, power, rest)) :
    Spans cs rest := by
  unfold power? at h
  split at h
  · cases h
  · rename_i e more
    dsimp only at h
    split at h
    · rename_i hpower
      cases h
      have hdigits := (spans_signPart more).trans
        (spans_dropWhile (fun _ => isOperandChar_of_isDigit) (signPart more).2)
      rcases hpower.1 with rfl | rfl <;> exact hdigits.cons (by decide)
    · cases h

/-- A number ends where its last part does, whichever parts it has. -/
theorem spans_number {cs rest : List Char} {e : Expr} (h : number cs = .ok (e, rest)) :
    Spans cs rest := by
  have hwhole := spans_dropWhile isOperandChar_of_isDigitOrUnderscore cs
  unfold number at h
  dsimp only at h
  split at h
  · rename_i hfraction
    have hfraction := hwhole.trans (spans_fraction? hfraction)
    split at h
    · rename_i hpower
      exact snd_eq_of_map_ok h ▸ hfraction.trans (spans_power? hpower)
    · exact snd_eq_of_map_ok h ▸ hfraction
  · split at h
    · rename_i hpower
      exact snd_eq_of_map_ok h ▸ hwhole.trans (spans_power? hpower)
    · exact snd_eq_of_map_ok h ▸ hwhole

/-- A word ends where its characters do, whether it is a constant or a name. -/
theorem rest_of_word {cs rest : List Char} {e : Expr} (h : word cs = .ok (e, rest)) :
    rest = cs.dropWhile isIdentChar := by
  unfold word at h
  dsimp only at h
  split at h
  · cases h
    rfl
  split at h
  · cases h
  split at h
  · cases h
  · cases h
    rfl

/-! ## 3. Operands -/

/-- A literal, a number, a word, or an expression in parentheses.  The parentheses are closed by
whatever closes them. -/
theorem spans_primary {self : Reader} {source cs rest : List Char} {e : Expr}
    (h : primary self source cs = .ok (e, rest)) : Spans cs rest := by
  unfold primary at h
  split at h
  · cases h
  · rename_i c cs
    split at h
    · rename_i hquote
      split at h
      · rename_i value after hread
        cases h
        obtain ⟨body, hbody, hcs⟩ := literalBody_of_stringBody? hread
        exact ⟨c :: (body ++ [c]), by simp [hcs], .literal hquote hbody .nil⟩
      · cases h
    split at h
    · exact spans_number (eq_ok_of_blame h)
    split at h
    · rename_i hopen
      subst hopen
      split at h
      · cases h
      · rename_i inner after hclose
        split at h
        · cases h
        split at h
        · cases h
        · obtain ⟨_, _, he⟩ := eq_ok_of_bind h
          cases he
          exact spans_matchingClose (by decide) hclose
    split at h
    · cases h
    split at h
    · cases h
    split at h
    · exact rest_of_word (eq_ok_of_blame h) ▸ spans_word _
    · cases h

/-- An attribute ends where its characters do. -/
theorem rest_of_attributeAfter {subject e : Expr} {cs rest : List Char}
    (h : attributeAfter subject cs = .ok (e, rest)) : rest = cs.dropWhile isIdentChar := by
  unfold attributeAfter at h
  dsimp only at h
  split at h
  · cases h
  split at h
  · cases h
  split at h
  · split at h
    · cases h
      rfl
    · cases h
  · cases h
    rfl

/-- Attributes and subscripts, by induction on the length of what is left to read. -/
theorem spans_postfixes {self : Reader} {source cs rest : List Char} {subject e : Expr}
    (h : postfixes self source subject cs = .ok (e, rest)) : Spans cs rest := by
  induction hn : cs.length using Nat.strongRecOn generalizing subject cs with
  | _ n ih =>
    subst hn
    cases cs with
    | nil =>
      rw [postfixes_nil] at h
      cases h
      exact spans_refl _
    | cons c cs =>
      rw [postfixes_cons] at h
      split at h
      · rename_i hdot
        subst hdot
        split at h
        · cases h
        · rename_i hattr
          have hl := length_attributeAfter_le hattr
          have hmore := ih _ (by simp only [List.length_cons]; omega) h rfl
          rw [rest_of_attributeAfter hattr] at hmore
          exact ((spans_word cs).trans hmore).cons (by decide)
      split at h
      · rename_i hopen
        subst hopen
        split at h
        · cases h
        · rename_i inner after hclose
          have hl := length_closeFrom_lt hclose
          split at h
          · cases h
          split at h
          · cases h
          · obtain ⟨key, -, he⟩ := eq_ok_of_bind h
            exact (spans_matchingClose (by decide) hclose).trans
              (ih _ (by simp only [List.length_cons]; omega) he rfl)
      split at h
      · cases h
      · cases h
        exact spans_refl _

/-- The arguments of a filter are passed over, brackets and all, without being read. -/
theorem spans_skipArguments {cs rest : List Char} {b : Bool}
    (h : skipArguments cs = .ok (b, rest)) : Spans cs rest := by
  unfold skipArguments at h
  split at h
  · split at h
    · cases h
    · rename_i hclose
      cases h
      exact spans_matchingClose (by decide) hclose
  · cases h
    exact spans_refl _

/-- A filter with its name and its arguments. -/
theorem spans_oneFilter {operand e : Expr} {cs rest : List Char}
    (h : oneFilter operand cs = .ok (e, rest)) : Spans cs rest := by
  have hname := (spans_trimStart cs).trans (spans_word (trimStart cs))
  unfold oneFilter at h
  dsimp only at h
  split at h
  · cases h
  · obtain ⟨⟨hasArguments, after⟩, hskip, h⟩ := eq_ok_of_bind h
    have hafter := hname.trans (spans_skipArguments hskip)
    dsimp only at h
    split at h
    · split at h
      · cases h
      · cases h
        exact hafter
    · cases h
      exact hafter

/-- All the filters of an operand. -/
theorem spans_filters {source cs rest : List Char} {operand e : Expr}
    (h : filters source operand cs = .ok (e, rest)) : Spans cs rest := by
  induction hn : cs.length using Nat.strongRecOn generalizing operand cs with
  | _ n ih =>
    subst hn
    have ht := length_trimStart_le cs
    have hblank := spans_trimStart cs
    rw [filters_eq] at h
    split at h
    · rename_i hc
      cases h
      exact hc ▸ hblank
    · rename_i c after hc
      rw [hc, List.length_cons] at ht
      rw [hc] at hblank
      split at h
      · rename_i hbar
        subst hbar
        split at h
        · cases h
        · rename_i hfilter
          have hl := length_oneFilter_le hfilter
          have hmore := (spans_oneFilter hfilter).trans (ih _ (by omega) h rfl)
          exact hblank.trans (hmore.cons (by decide))
      · cases h
        exact hblank

/-- Signs in front, with blanks between them. -/
theorem spans_signs (cs : List Char) : Spans cs (signs cs).2 := by
  induction cs with
  | nil => exact spans_refl _
  | cons c cs ih =>
    unfold signs
    split
    · rename_i hc
      exact ih.cons (isOperandChar_of_isBlank hc)
    split
    · rename_i hc
      rcases hc with rfl | rfl <;> exact ih.cons (by decide)
    · exact spans_refl _

/-- **An operand closes what it opens, and shows nothing but its own characters.** -/
theorem spans_operand {self : Reader} {source cs rest : List Char} {e : Expr}
    (h : operand self source cs = .ok (e, rest)) : Spans cs rest := by
  obtain ⟨⟨first, after⟩, hfirst, h⟩ := eq_ok_of_bind h
  obtain ⟨⟨second, after'⟩, hsecond, h⟩ := eq_ok_of_bind h
  exact (((spans_signs cs).trans (spans_primary hfirst)).trans (spans_postfixes hsecond)).trans
    (spans_filters h)

/-! ## 4. Chains -/

/-- The operator that is read stands in the text. -/
theorem exists_symbol_of_operator {c : Char} {cs after : List Char} {op : BinOp}
    (h : operator c cs = .ok (op, after)) :
    ∃ symbol, (symbol, op) ∈ operatorSymbols ∧ c :: cs = symbol ++ after := by
  unfold operator at h
  split at h
  · cases h
  split at h
  · cases h
  split at h
  · rename_i symbol op' hfind
    cases h
    have hmem := List.mem_of_find?_eq_some hfind
    have hprefix := List.find?_some hfind
    obtain ⟨t, ht⟩ := List.isPrefixOf_iff_prefix.1 hprefix
    rw [← ht, List.drop_left]
    exact ⟨symbol, hmem, rfl⟩
  · cases h

/-- Operators that do not compare have no comparison sign in them. -/
theorem quiet_symbol {symbol : List Char} {op : BinOp} (h : (symbol, op) ∈ operatorSymbols)
    (hop : op.isComparison = false) : Quiet symbol := by
  have hall : ∀ s ∈ operatorSymbols, s.2.isComparison = false →
      s.1.all (fun c => isPlain c && !isSign c) = true := by
    decide
  refine Balanced.of_plain fun c hc => ?_
  simpa using List.all_eq_true.1 (hall _ h hop) c hc

/-- A character that a text that is read may show at top level. -/
def isExprChar (c : Char) : Bool :=
  isOperandChar c || ['=', '!', '<', '>', '*', '/', '%', '~'].contains c

/-- Balanced, and at top level made of the characters of operands and operators. -/
abbrev ExprText : List Char → Prop := Balanced fun c => isExprChar c = true

theorem isExprChar_of_isOperandChar {c : Char} (h : isOperandChar c = true) :
    isExprChar c = true := by
  simp [isExprChar, h]

/-- No operator opens or closes anything. -/
theorem balanced_symbol {symbol : List Char} {op : BinOp} (h : (symbol, op) ∈ operatorSymbols) :
    ExprText symbol := by
  have hall : ∀ s ∈ operatorSymbols, s.1.all (fun c => isPlain c && isExprChar c) = true := by
    decide
  refine Balanced.of_plain fun c hc => ?_
  simpa using List.all_eq_true.1 (hall _ h) c hc

/-- **A chain that is read is balanced**, and at top level it is made of operands and operators. -/
theorem exprText_of_chain {self : Reader} {source cs : List Char} {e : Expr} {allowed : Nat}
    {before : Option (Expr × BinOp)} {compared : Bool}
    (h : chain self source allowed before compared cs = .ok e) :
    ExprText cs := by
  induction allowed generalizing before compared cs with
  | zero => cases h
  | succ allowed ih =>
    unfold chain at h
    obtain ⟨⟨first, rest⟩, hfirst, h⟩ := eq_ok_of_bind h
    obtain ⟨used, hcs, hshown⟩ := spans_operand hfirst
    have hused := hshown.mono fun _ => isExprChar_of_isOperandChar
    rw [hcs]
    cases rest with
    | nil => simpa using hused
    | cons c rest =>
      obtain ⟨⟨op, after⟩, hop, h⟩ := eq_ok_of_bind h
      obtain ⟨symbol, hsymbol, htext⟩ := exists_symbol_of_operator (eq_ok_of_blame hop)
      dsimp only at h
      split at h
      · cases h
      · rw [htext]
        exact hused.append ((balanced_symbol hsymbol).append (ih h))

/-! ## 5. Whole texts -/

/-- Words alone are a text that an operand may show. -/
theorem Wordy.shown {cs : List Char} (h : Wordy cs) : OperandText cs := by
  refine Balanced.of_plain fun c hc => ?_
  have hchar := isOperandChar_of_isWordChar (h c hc)
  exact ⟨isPlain_of_isOperandChar hchar, hchar⟩

theorem Wordy.quiet {cs : List Char} (h : Wordy cs) : Quiet cs := h.shown.quiet

theorem Wordy.exprText {cs : List Char} (h : Wordy cs) : ExprText cs :=
  h.shown.mono fun _ => isExprChar_of_isOperandChar

theorem Wordy.balanced {cs : List Char} (h : Wordy cs) : Balanced (fun _ => True) cs :=
  h.quiet.mono fun _ _ => trivial

/-- The words at which a text is cut are words. -/
theorem wordy_of_isCutWord {w : List Char} (h : IsCutWord w) : Wordy w := by
  rcases h with rfl | rfl | rfl <;> exact wordy_of_isWord (by decide)

/-- Texts of operands and operators, put together by words, are such texts again; so the statement
about chains carries over to everything that is read. -/
theorem compositional_exprText : Compositional ExprText where
  chain h := exprText_of_chain h
  wordy_append ha hb := ha.exprText.append hb
  append_wordy ha hb := ha.append hb.exprText
  join hw _ _ ha hb := (ha.append (wordy_of_isCutWord hw).exprText).append hb

end Reading

/-- **A text that is read is made of operands, operators and words**, as far as top level shows. -/
theorem Accepted.exprText {cs : List Char} (h : Accepted cs) : ExprText cs :=
  compositional_exprText.of_accepted h

/-- **A text that is read closes every bracket and every literal.** -/
theorem Accepted.balanced {cs : List Char} (h : Accepted cs) : Balanced (fun _ => True) cs :=
  h.exprText.mono fun _ _ => trivial

/-! ## 6. The brackets of an expression -/

namespace Target

/-- Only what is read compiles. -/
theorem read_of_compileExpr {scope : Scope} {cs : List Char} {code : Code}
    (h : compileExpr scope cs = .ok code) : ∃ e, Expr.read cs = .ok e := by
  unfold compileExpr at h
  split at h
  · rename_i e hread
    exact ⟨e, hread⟩
  · cases h

/-- **In an expression that compiles every bracket closes the last one that is open, and nothing
stays open**, whatever names are in scope.  It is well matched exactly if the brackets of each pair
are of one kind, which nothing checks. -/
theorem bracketPairs?_of_compileExpr {scope : Scope} {cs : List Char} {code : Code}
    (h : compileExpr scope cs = .ok code) :
    ∃ pairs, bracketPairs? cs = some pairs ∧
      (WellMatched cs ↔ ∀ p ∈ pairs, sameKind p = true) := by
  obtain ⟨e, hread⟩ := read_of_compileExpr h
  obtain ⟨pairs, hpairs⟩ := (Expr.accepted_of_read hread).balanced.bracketPairs?
  refine ⟨pairs, hpairs, ?_⟩
  constructor
  · rintro ⟨pairs', hpairs', hall⟩
    rw [hpairs] at hpairs'
    cases hpairs'
    exact hall
  · intro hall
    exact ⟨pairs, hpairs, hall⟩

/-- The theorem at an expression with a bracket in a literal and brackets in an argument that nobody
reads. -/
theorem bracketPairs?_of_compileExpr_nested :
    ∃ code, compileExpr ⟨[], []⟩ "(a['('] | f([\x7b\x7d], \")\") ~ b)".toList = .ok code ∧
      WellMatched "(a['('] | f([\x7b\x7d], \")\") ~ b)".toList := by
  have hsome : (compileExpr ⟨[], []⟩
      "(a['('] | f([\x7b\x7d], \")\") ~ b)".toList).toOption.isSome = true := by
    decide +kernel
  have hknown : bracketPairs? "(a['('] | f([\x7b\x7d], \")\") ~ b)".toList =
      some [('[', ']'), ('{', '}'), ('[', ']'), ('(', ')'), ('(', ')')] := by
    decide
  obtain ⟨code, hcode⟩ := eq_ok_of_isSome hsome
  obtain ⟨pairs, hpairs, hiff⟩ := bracketPairs?_of_compileExpr hcode
  rw [hknown] at hpairs
  cases hpairs
  exact ⟨code, hcode, hiff.2 (by decide)⟩

/-- A parenthesis may be closed by a bracket of another kind. -/
theorem compileExpr_mixed_brackets :
    (compileExpr ⟨[], []⟩ "(a]".toList).toOption =
        some (.convert (.free "a".toList)) ∧
      ¬ WellMatched "(a]".toList := by
  refine ⟨by decide +kernel, ?_⟩
  rintro ⟨pairs, hpairs, hall⟩
  have hknown : bracketPairs? "(a]".toList = some [('(', ']')] := by decide
  rw [hknown] at hpairs
  cases hpairs
  exact absurd (hall ('(', ']') (by simp)) (by decide)

end Target

end TemplateCompiler
