import TemplateCompiler.Proofs.Expr.Escapes
import TemplateCompiler.Proofs.Expr.Extent
import TemplateCompiler.Proofs.Expr.Shape

/-! # Expressions in brackets

A text that is read can be put in parentheses or between the brackets of a subscript, and is read
there as it was read alone.  The brackets that the reader looks for are then the ones around the
text, since the text closes what it opens (`Accepted.exprText`), and none of the characters that are
refused inside of brackets can be in the way: at top level a text that is read shows neither a comma
nor a colon.

A subscript borrows its key directly where the key is a lone literal.  This is said of the tree
(`Expr.isLoneLiteral`), but it can be seen in the text: `isLoneLiteral_iff`.
-/

namespace TemplateCompiler

open Text Reading

/-! ## 1. Blanks around a text -/

theorem tight_trim_of_read {cs : List Char} {e : Expr} (h : Expr.read cs = .ok e) :
    Tight (trim cs) := by
  refine tight_trim fun hempty => ?_
  rw [Expr.read_eq, readWith, hempty] at h
  cases h

/-- A text is read as its trimmed part is. -/
theorem Expr.read_trim {cs : List Char} {e : Expr} (h : Expr.read cs = .ok e) :
    Expr.read (trim cs) = .ok e := by
  obtain ⟨pre, post, hpre, hpost, hcs⟩ := exists_eq_trim cs
  have hread := Expr.read_padded (tight_trim_of_read h) hpre hpost
  rw [← hcs, h] at hread
  exact hread.symm

/-! ## 2. Parentheses and subscripts -/

/-- **A text in parentheses is read as a group.** -/
theorem Expr.read_group {cs : List Char} {e : Expr} (h : Expr.read cs = .ok e) :
    Expr.read ('(' :: (cs ++ [')'])) = .ok (.group e) := by
  have htext := (Expr.accepted_of_read h).exprText
  have htight : Tight ('(' :: (cs ++ [')'])) :=
    ⟨⟨'(', cs ++ [')'], rfl, by decide⟩, ⟨'(' :: cs, ')', rfl, by decide⟩⟩
  have hblank : isBlankText cs = false := by
    obtain ⟨pre, post, -, -, hcs⟩ := exists_eq_trim cs
    obtain ⟨c, rest, htrim, hc⟩ := (tight_trim_of_read h).head
    rw [hcs, htrim]
    simp [isBlankText, hc]
  refine Expr.read_of_accessed (htext.bracketed (by decide) (by decide)) htight
    (isReservedWord_eq_false (c := '(') (by simp) (by decide)) ?_ (by decide) (by decide) ?_
  · rw [List.takeWhile_cons_of_neg (by decide)]
    decide
  · rw [accessed_of_primary (primary_group htext (by decide) hblank h), postfixes_nil]

theorem Expr.read_name {n : List Char} (h : IsVariable n) : Expr.read n = .ok (.name n) :=
  Expr.read_print (.lift .conjunction <| .lift .negation <| .lift .test <| .lift (.chain false) <|
    .lift .operand <| .lift .signed <| .lift .primary <| .name n h)

/-- **A text in square brackets after a name is read as a subscript.** -/
theorem Expr.read_item {n cs : List Char} {e : Expr} (hn : IsVariable n)
    (h : Expr.read cs = .ok e) :
    Expr.read (n ++ '[' :: (cs ++ [']'])) = .ok (.item (.name n) e) := by
  have htext := (Expr.accepted_of_read h).exprText
  have hkey := Expr.read_trim h
  have htight := tight_trim_of_read h
  have hcolon : hasChar ':' (trim cs) = false :=
    (Expr.accepted_of_read hkey).exprText.hasChar (by decide) fun c hc => by
      rintro rfl
      exact absurd hc (by decide)
  have hword : ∀ c ∈ n, isIdentChar c = true := fun _ hc => isIdentChar_of_mem hn.isIdentifier hc
  have hend : PrimaryEnd ('[' :: (cs ++ [']'])) := .inr (.inr ⟨_, rfl⟩)
  have hfirst : (n ++ '[' :: (cs ++ [']'])).takeWhile isIdentChar ≠ "not".toList := by
    rw [(takeWhile_append_of_wordEnd hword hend.wordEnd).1]
    rintro rfl
    exact absurd hn.isReservedWord_eq_false (by decide)
  have haccessed (source : List Char) :
      accessed source (n ++ '[' :: (cs ++ [']'])) = .ok (.item (.name n) e, []) := by
    have hname := Phrase.accessed_name hn source _ hend
    rw [Phrase.print, Phrase.expr] at hname
    rw [hname, postfixes_item htext hcolon htight.isEmpty hkey, postfixes_nil]
  have hchunk : Balanced NotBlank (n ++ '[' :: (cs ++ [']'])) :=
    ((balanced_of_isIdentChar hword).mono fun _ hc => hc.2).append
      (htext.bracketed (by decide) (by decide))
  have hreserved : isReservedWord (n ++ '[' :: (cs ++ [']'])) = false :=
    isReservedWord_eq_false (c := '[') (by simp) (by decide)
  obtain ⟨c, more, rfl, hc⟩ := exists_cons_of_isIdentifier hn.1
  have hne {mark : Char} (hmark : isIdentStart mark = false) : c ≠ mark := by
    rintro rfl
    simp [hmark] at hc
  have hwhole : Tight (c :: more ++ '[' :: (cs ++ [']'])) :=
    ⟨⟨c, _, rfl, isBlank_of_isIdentChar (isIdentChar_of_isIdentStart hc)⟩,
      ⟨c :: more ++ '[' :: cs, ']', by simp, by decide⟩⟩
  exact Expr.read_of_accessed hchunk hwhole hreserved hfirst (hne (by decide)) (hne (by decide))
    (haccessed _)

/-! ## 3. Lone literals -/

/-- One string literal, or nothing but digits. -/
inductive IsLone : List Char → Prop
  | text {q : Char} {body : List Char} (hq : isQuote q = true) (h : LiteralBody q body) :
    IsLone (q :: (body ++ [q]))
  | digits {cs : List Char} (h : ∀ c ∈ cs, c.isDigit = true) : IsLone cs

namespace Reading

theorem lone_number {cs rest : List Char} {e : Expr} (h : number cs = .ok (e, rest))
    (hlone : e.isLoneLiteral = true) : ∃ used, cs = used ++ rest ∧ IsLone used := by
  have hdecimal {written significand : List Char} {exponent : Int}
      (h : decimal written significand exponent = .ok e) : e.isLoneLiteral = false := by
    unfold decimal at h
    dsimp only at h
    split at h <;> cases h
    rfl
  unfold number at h
  dsimp only at h
  split at h
  · split at h <;> simp [hdecimal (eq_ok_of_map_rest h)] at hlone
  · split at h
    · simp [hdecimal (eq_ok_of_map_rest h)] at hlone
    · have hplain : (cs.takeWhile isDigitOrUnderscore).all Char.isDigit = true := by
        have hint := eq_ok_of_map_rest h
        unfold integer at hint
        split at hint <;> cases hint
        exact hlone
      obtain rfl := snd_eq_of_map_ok h
      exact ⟨cs.takeWhile isDigitOrUnderscore, List.takeWhile_append_dropWhile.symm,
        .digits (List.all_eq_true.1 hplain)⟩

theorem isLoneLiteral_word {cs rest : List Char} {e : Expr} (h : word cs = .ok (e, rest)) :
    e.isLoneLiteral = false := by
  unfold word at h
  dsimp only at h
  split at h
  · rename_i hconstant
    cases h
    unfold constant? at hconstant
    split at hconstant
    · cases hconstant
      rfl
    split at hconstant
    · cases hconstant
      rfl
    split at hconstant <;> cases hconstant
    rfl
  split at h
  · cases h
  split at h <;> cases h
  rfl

/-- A primary expression that is a literal has a literal for its text. -/
theorem lone_primary {self : Reader} {source cs rest : List Char} {e : Expr}
    (h : primary self source cs = .ok (e, rest)) (hlone : e.isLoneLiteral = true) :
    ∃ used, cs = used ++ rest ∧ IsLone used := by
  unfold primary at h
  split at h
  · cases h
  · rename_i c cs
    split at h
    · rename_i hquote
      split at h
      · rename_i value after hread
        cases h
        obtain ⟨body, hbody, hcs⟩ := literalBody_of_stringBody? hread
        exact ⟨c :: (body ++ [c]), by simp [hcs], .text hquote hbody⟩
      · cases h
    split at h
    · exact lone_number (eq_ok_of_blame h) hlone
    split at h
    · split at h
      · cases h
      split at h
      · cases h
      split at h
      · cases h
      · obtain ⟨inner, -, he⟩ := eq_ok_of_bind h
        cases he
        cases hlone
    split at h
    · cases h
    split at h
    · cases h
    split at h
    · simp [isLoneLiteral_word (eq_ok_of_blame h)] at hlone
    · cases h

theorem isLoneLiteral_attributeAfter {subject e : Expr} {cs rest : List Char}
    (h : attributeAfter subject cs = .ok (e, rest)) : e.isLoneLiteral = false := by
  unfold attributeAfter at h
  dsimp only at h
  split at h
  · cases h
  split at h
  · cases h
  split at h
  · split at h <;> cases h
    rfl
  · cases h
    rfl

/-- No attribute and no subscript gives a literal. -/
theorem eq_of_lone_postfixes {self : Reader} {source cs rest : List Char} {subject e : Expr}
    (h : postfixes self source subject cs = .ok (e, rest)) (hlone : e.isLoneLiteral = true) :
    e = subject ∧ rest = cs := by
  induction hn : cs.length using Nat.strongRecOn generalizing subject cs with
  | _ n ih =>
    subst hn
    cases cs with
    | nil =>
      rw [postfixes_nil] at h
      cases h
      exact ⟨rfl, rfl⟩
    | cons c cs =>
      rw [postfixes_cons] at h
      split at h
      · split at h
        · cases h
        · rename_i hattr
          have hl := length_attributeAfter_le hattr
          obtain ⟨rfl, -⟩ := ih _ (by simp only [List.length_cons]; omega) h rfl
          simp [isLoneLiteral_attributeAfter hattr] at hlone
      split at h
      · split at h
        · cases h
        · rename_i inner after hclose
          have hl := length_closeFrom_lt hclose
          split at h
          · cases h
          split at h
          · cases h
          · obtain ⟨key, -, he⟩ := eq_ok_of_bind h
            obtain ⟨rfl, -⟩ := ih _ (by simp only [List.length_cons]; omega) he rfl
            cases hlone
      split at h <;> cases h
      exact ⟨rfl, rfl⟩

theorem isLoneLiteral_oneFilter {operand e : Expr} {cs rest : List Char}
    (h : oneFilter operand cs = .ok (e, rest)) : e.isLoneLiteral = false := by
  unfold oneFilter at h
  dsimp only at h
  split at h
  · cases h
  · obtain ⟨⟨hasArguments, after⟩, -, h⟩ := eq_ok_of_bind h
    dsimp only at h
    split at h
    · split at h <;> cases h
      rfl
    · cases h
      rfl

/-- No filter gives a literal. -/
theorem eq_of_lone_filters {source cs rest : List Char} {operand e : Expr}
    (h : filters source operand cs = .ok (e, rest)) (hlone : e.isLoneLiteral = true) :
    e = operand ∧ rest = trimStart cs := by
  induction hn : cs.length using Nat.strongRecOn generalizing operand cs with
  | _ n ih =>
    subst hn
    have ht := length_trimStart_le cs
    rw [filters_eq] at h
    split at h
    · rename_i hc
      cases h
      exact ⟨rfl, hc.symm⟩
    · rename_i c after hc
      rw [hc, List.length_cons] at ht
      split at h
      · split at h
        · cases h
        · rename_i hfilter
          have hl := length_oneFilter_le hfilter
          obtain ⟨rfl, -⟩ := ih _ (by omega) h rfl
          simp [isLoneLiteral_oneFilter hfilter] at hlone
      · cases h
        exact ⟨rfl, hc.symm⟩

/-- No sign gives a literal. -/
theorem eq_nil_of_lone_signs {marks : List Char} {e : Expr}
    (hlone : (marks.foldr applySign e).isLoneLiteral = true) : marks = [] := by
  cases marks with
  | nil => rfl
  | cons mark marks =>
    rw [List.foldr_cons, applySign] at hlone
    split at hlone <;> cases hlone

/-- **An operand that is a literal is written as one**, if no blanks stand around it. -/
theorem lone_operand {self : Reader} {source cs : List Char} {e : Expr} (hcs : Tight cs)
    (h : operand self source cs = .ok (e, [])) (hlone : e.isLoneLiteral = true) : IsLone cs := by
  obtain ⟨⟨first, after⟩, hfirst, h⟩ := eq_ok_of_bind h
  obtain ⟨⟨second, after'⟩, hsecond, h⟩ := eq_ok_of_bind h
  obtain ⟨rfl, hblank⟩ := eq_of_lone_filters h hlone
  have hmarks := eq_nil_of_lone_signs hlone
  rw [hmarks, List.foldr_nil] at hlone
  obtain ⟨rfl, rfl⟩ := eq_of_lone_postfixes hsecond hlone
  obtain ⟨used, hused, hone⟩ := lone_primary hfirst hlone
  -- there are no signs to go over, and nothing but blanks is left
  have hstart : (signs cs).2 = cs := by
    obtain ⟨c, rest, rfl, hc⟩ := hcs.head
    unfold signs at hmarks ⊢
    rw [if_neg (by simp [hc])] at hmarks ⊢
    split at hmarks
    · cases hmarks
    · rename_i hsign
      rw [if_neg hsign]
  rw [hstart] at hused
  have hblank : ∀ c ∈ after', isBlank c = true := by
    have hall := trimStart_append_dropped after'
    rw [← hblank, List.append_nil] at hall
    rw [← hall]
    exact List.all_eq_true.1 List.all_takeWhile
  have hend : trimEnd used = used ++ after' := by
    have htight := hcs.trimEnd []
    rwa [List.nil_append, hused, trimEnd_append_of_blank used hblank] at htight
  obtain rfl : after' = [] := by
    have hlength := length_trimEnd_le used
    rw [hend, List.length_append] at hlength
    exact List.length_eq_zero_iff.1 (by omega)
  rw [List.append_nil] at hused
  exact hused ▸ hone

/-- A chain that is a literal is one operand. -/
theorem operand_of_lone_chain {self : Reader} {source cs : List Char} {e : Expr} {allowed : Nat}
    {before : Option (Expr × BinOp)} {compared : Bool}
    (h : chain self source allowed before compared cs = .ok e) (hlone : e.isLoneLiteral = true) :
    before = none ∧ operand self source cs = .ok (e, []) := by
  induction allowed generalizing before compared cs with
  | zero => cases h
  | succ allowed ih =>
    unfold chain at h
    obtain ⟨⟨first, rest⟩, hfirst, h⟩ := eq_ok_of_bind h
    cases rest with
    | nil =>
      cases h
      cases before with
      | none => exact ⟨rfl, hfirst⟩
      | some p => cases hlone
    | cons c rest =>
      obtain ⟨⟨op, after⟩, -, h⟩ := eq_ok_of_bind h
      dsimp only at h
      split at h
      · cases h
      · cases (ih h).1

theorem isLoneLiteral_test {self : Reader} {source subject name : List Char} {e : Expr}
    (h : test self source subject name = .ok e) : e.isLoneLiteral = false := by
  have hnamed (negated : Bool) (name : List Char) (h : (if name = "defined".toList then
        return .defined negated (← self subject)
      else if name = "undefined".toList then return .defined (!negated) (← self subject)
      else blame source (.error (.unsupportedTest name))) = .ok e) : e.isLoneLiteral = false := by
    split at h
    · obtain ⟨inner, -, he⟩ := eq_ok_of_bind h
      cases he
      rfl
    split at h
    · obtain ⟨inner, -, he⟩ := eq_ok_of_bind h
      cases he
      rfl
    · cases h
  exact hnamed _ _ h

theorem isLoneLiteral_joinParts {self : Reader} {source first second : List Char}
    {rest : List (List Char)} {join : Expr → Expr → Expr} {e : Expr}
    (hjoin : ∀ a b, (join a b).isLoneLiteral = false)
    (h : joinParts self source join first (second :: rest) = .ok e) : e.isLoneLiteral = false := by
  obtain ⟨acc, -, hfold⟩ := eq_ok_of_bind h
  clear h
  induction rest generalizing acc second with
  | nil =>
    rw [List.foldlM_cons] at hfold
    obtain ⟨acc', hacc', hfold⟩ := eq_ok_of_bind hfold
    obtain ⟨b, -, he⟩ := eq_ok_of_bind hacc'
    cases he
    cases hfold
    exact hjoin _ _
  | cons third rest ih =>
    rw [List.foldlM_cons] at hfold
    obtain ⟨acc', -, hmore⟩ := eq_ok_of_bind hfold
    exact ih _ hmore

/-- A boolean expression that is a literal is one operand. -/
theorem operand_of_lone_boolean {self : Reader} {source : List Char} {e : Expr}
    (h : boolean self source = .ok e) (hlone : e.isLoneLiteral = true) :
    operand self source source = .ok (e, []) := by
  unfold boolean at h
  split at h
  · simp [isLoneLiteral_joinParts (fun _ _ => rfl) h] at hlone
  split at h
  · simp [isLoneLiteral_joinParts (fun _ _ => rfl) h] at hlone
  split at h
  · obtain ⟨inner, -, he⟩ := eq_ok_of_bind h
    cases he
    cases hlone
  split at h
  · unfold membership at h
    dsimp only at h
    split at h
    · cases h
    · obtain ⟨container, -, h⟩ := eq_ok_of_bind h
      obtain ⟨item, -, h⟩ := eq_ok_of_bind h
      cases h
      cases hlone
  · exact (operand_of_lone_chain h hlone).2

end Reading

/-- Digits are read as an integer, or refused as one. -/
theorem Expr.read_digits {cs : List Char} (hne : cs ≠ []) (hdigits : ∀ c ∈ cs, c.isDigit = true) :
    Expr.read cs = blame cs (integer cs true) := by
  have hident : ∀ c ∈ cs, isIdentChar c = true := fun c hc => isIdentChar_of_isDigit (hdigits c hc)
  have hchunk : Balanced NotBlank cs := (balanced_of_isIdentChar hident).mono fun _ hc => hc.2
  have hfirst : cs.takeWhile isIdentChar = cs := by
    simpa using (takeWhile_append_of_wordEnd hident wordEnd_nil).1
  have hnumber : number (cs ++ []) = (integer cs true).map (·, []) :=
    number_append hdigits (.inl (.inl rfl))
  obtain ⟨c, rest, rfl⟩ := List.exists_cons_of_ne_nil hne
  have hc := hdigits c (by simp)
  have hmark {mark : Char} (hmark : mark.isDigit = false) : c ≠ mark := by
    rintro rfl
    simp [hmark] at hc
  have hnot : afterKeyword? "not".toList (c :: rest) = none := by
    refine afterKeyword?_eq_none (by decide) ?_
    rw [hfirst]
    exact fun hword => hmark (by decide) (List.cons.inj hword).1
  have hreserved := isReservedWord_eq_false (w := c :: rest) (by simp) (isAlpha_of_isDigit hc)
  have hblank := isBlank_of_isIdentChar (isIdentChar_of_isDigit hc)
  rw [List.append_nil] at hnumber
  rw [Expr.read_of_skips (tight_of_isIdentChar hne hident)
      (fun _ hw => skips_chunk hw hne hchunk hreserved) hnot,
    chain, operand, signs_cons rest hblank (hmark (by decide)) (hmark (by decide))]
  dsimp only
  rw [primary_digit _ _ _ hc, hnumber]
  cases integer (c :: rest) true with
  | error fault => rfl
  | ok e =>
    dsimp only [Except.map, blame_ok, bind, Except.bind]
    rw [postfixes_nil]
    dsimp only
    rw [filters_eq]
    rfl

/-- **An expression is a lone literal exactly if its text is one.** -/
theorem Expr.isLoneLiteral_iff {cs : List Char} {e : Expr} (h : Expr.read cs = .ok e) :
    e.isLoneLiteral = true ↔ IsLone (trim cs) := by
  have htight := tight_trim_of_read h
  constructor
  · intro hlone
    rw [Expr.read_eq, readWith] at h
    split at h
    · cases h
    split at h
    · simp [isLoneLiteral_test h] at hlone
    · exact lone_operand htight (operand_of_lone_boolean h hlone) hlone
  · intro hlone
    have hread := Expr.read_trim h
    generalize trim cs = source at hlone hread htight
    cases hlone with
    | text hq hbody =>
      rw [Expr.read_literal hq hbody] at hread
      cases hread
      rfl
    | digits hdigits =>
      rw [Expr.read_digits htight.ne_nil hdigits] at hread
      have hinteger := eq_ok_of_blame hread
      unfold integer at hinteger
      split at hinteger <;> cases hinteger
      rfl

/-! ## 4. The generated expressions -/

namespace Target

theorem print_lower_of_compileExpr {scope : Scope} {cs code : List Char}
    (h : (compileExpr scope cs).map Code.print = .ok code) :
    ∃ e, Expr.read cs = .ok e ∧ (lower scope e).print = code := by
  obtain ⟨c, hc, hcode⟩ := eq_ok_of_map h
  obtain ⟨e, hread⟩ := read_of_compileExpr hc
  rw [compileExpr, hread] at hc
  cases hc
  exact ⟨e, hread, hcode⟩

/-- **Brackets keep the code of what they are put around.**  In parentheses the value of the code is
taken.  In a subscript the key is the code if the text is a lone literal, and otherwise the value of
the code.  Neither can fail: a text that compiles shows no comma and no colon at top level, and
closes what it opens. -/
theorem compileExpr_bracketed {scope : Scope} {cs code : List Char}
    (h : (compileExpr scope cs).map Code.print = .ok code) :
    (compileExpr scope ('(' :: (cs ++ [')']))).map Code.print =
        .ok ("Value::from(".toList ++ code ++ ")".toList) ∧
      ∀ n, IsVariable n → ∃ subject key,
        (compileExpr scope n).map Code.print = .ok subject ∧
        (compileExpr scope (n ++ '[' :: (cs ++ [']']))).map Code.print =
          .ok ("get_index(&".toList ++ subject ++ ", &".toList ++ key ++ ")".toList) ∧
        (IsLone (trim cs) → key = code) ∧
        (¬ IsLone (trim cs) → key = "Value::from(".toList ++ code ++ ")".toList) := by
  obtain ⟨e, hread, rfl⟩ := print_lower_of_compileExpr h
  have hlone := Expr.isLoneLiteral_iff hread
  constructor
  · rw [compileExpr, Expr.read_group hread]
    change Except.ok (Code.convert (lower scope e)).print = _
    simp [call]
  · intro n hn
    refine ⟨(scope.resolve n).print,
      (if e.isLoneLiteral then lower scope e else .convert (lower scope e)).print, ?_, ?_, ?_, ?_⟩
    · rw [compileExpr, Expr.read_name hn]
      rfl
    · rw [compileExpr, Expr.read_item hn hread]
      change Except.ok (Code.index (scope.resolve n)
        (if e.isLoneLiteral then lower scope e else .convert (lower scope e))).print = _
      simp [call]
    · intro htext
      rw [if_pos (hlone.2 htext)]
    · intro htext
      rw [if_neg (fun h => htext (hlone.1 h))]
      simp [call]

/-- The theorem at a membership test whose item has a filter: the comma, the colon and the bracket
in the arguments are in nobody's way. -/
theorem compileExpr_bracketed_member :
    ∃ code, (compileExpr ⟨["d".toList], []⟩ " a | f(b, c: ')') in d".toList).map Code.print =
        .ok code ∧
      (compileExpr ⟨["d".toList], []⟩ "( a | f(b, c: ')') in d)".toList).map Code.print =
        .ok ("Value::from(".toList ++ code ++ ")".toList) ∧
      ∃ subject, (compileExpr ⟨["d".toList], []⟩ "d".toList).map Code.print = .ok subject ∧
        (compileExpr ⟨["d".toList], []⟩ "d[ a | f(b, c: ')') in d]".toList).map Code.print =
          .ok ("get_index(&".toList ++ subject ++ ", &".toList ++
            ("Value::from(".toList ++ code ++ ")".toList) ++ ")".toList) := by
  have hsome : ((compileExpr ⟨["d".toList], []⟩ " a | f(b, c: ')') in d".toList).map
      Code.print).toOption.isSome = true := by
    decide +kernel
  obtain ⟨code, hcode⟩ := eq_ok_of_isSome hsome
  have hlone : ¬ IsLone (trim " a | f(b, c: ')') in d".toList) := by
    have hhead : (trim " a | f(b, c: ')') in d".toList).head? = some 'a' := by decide
    intro hone
    generalize trim " a | f(b, c: ')') in d".toList = cs at hhead hone
    cases hone with
    | text hq _ =>
      cases hhead
      exact absurd hq (by decide)
    | digits hdigits => exact absurd (hdigits 'a' (List.mem_of_mem_head? hhead)) (by decide)
  obtain ⟨hgroup, hitem⟩ := compileExpr_bracketed hcode
  obtain ⟨subject, key, hsubject, hcall, -, hkey⟩ := hitem "d".toList ⟨by decide, by decide, by decide⟩
  rw [hkey hlone] at hcall
  exact ⟨code, hcode, hgroup, subject, hsubject, hcall⟩

end Target

end TemplateCompiler
