import TemplateCompiler.Proofs.Expr.Bracketed
import TemplateCompiler.Proofs.Value.Quoted

/-! # Printed texts are literals

A text that is printed inside a list or map can be pasted into an expression.  The printer and the
reader of expressions have a table of escapes each, and the reader's is the larger one: it takes
either mark behind a backslash, the printer writes just the one that it has chosen.  So what is
printed is a literal (`spelled_of_bodyText`), the reader makes the text of it, and so does the
language, since the escapes that the reader does not know are not written.

Nothing in the text can be seen from outside of the literal.  Keywords, brackets, colons and marks
in it are therefore in nobody's way, neither alone nor between the brackets of a subscript
(`compileExpr_quoted`).
-/

namespace TemplateCompiler

open Text Reading

/-! ## 1. What is printed as a literal -/

namespace Value

/-- What stands between two marks `q` is the body of a literal, is read as `s`, and no escape in it
is left unread. -/
structure Spelled (q : Char) (s body : List Char) : Prop where
  literalBody : LiteralBody q body
  reading_eq : reading body = s
  not_mem_unreadLetters : ∀ c ∈ escapeLetters body, c ∉ unreadLetters

section
variable {q c e : Char} {s body : List Char}

/-- A character that stands for itself. -/
theorem Spelled.plain (h : Spelled q s body) (hc : c ≠ '\\') (hmark : c ≠ q) :
    Spelled q (c :: s) (c :: body) where
  literalBody := .plain hc hmark h.literalBody
  reading_eq := by rw [reading_cons hc, h.reading_eq]
  not_mem_unreadLetters := by
    rw [escapeLetters_cons hc]
    exact h.not_mem_unreadLetters

/-- A character by an escape that the reader knows. -/
theorem Spelled.escape (h : Spelled q s body) (he : unescape e = [c]) (hread : e ∉ unreadLetters) :
    Spelled q (c :: s) ('\\' :: e :: body) where
  literalBody := .escape h.literalBody
  reading_eq := by
    rw [reading_escape, he, h.reading_eq]
    rfl
  not_mem_unreadLetters := by
    rw [escapeLetters_escape, List.forall_mem_cons]
    exact ⟨hread, h.not_mem_unreadLetters⟩

/-- **The reader of expressions knows every escape that is printed.** -/
theorem Spelled.of_charText (h : Spelled q s body) (hq : isQuote q = true) {cs : List Char}
    (hc : CharText q c cs) : Spelled q (c :: s) (cs ++ body) := by
  cases hc with
  | plain hmark hnamed =>
    refine h.plain ?_ hmark
    rintro rfl
    exact hnamed (by decide)
  | escape hmem =>
    have hall : ∀ p ∈ namedEscapes, unescape p.1 = [p.2] ∧ p.1 ∉ unreadLetters :=
      forall_mem_of_all (by decide)
    obtain ⟨he, hread⟩ := hall _ hmem
    exact h.escape he hread
  | mark =>
    rcases isQuote_iff.1 hq with rfl | rfl
    · exact h.escape rfl (by decide)
    · exact h.escape rfl (by decide)

theorem spelled_of_bodyText (hq : isQuote q = true) (h : BodyText q s body) :
    Spelled q s body := by
  induction h with
  | nil => exact ⟨.nil, rfl, fun _ hc => by cases hc⟩
  | cons hc _ ih => exact ih.of_charText hq hc

end

end Value

/-! ## 2. The generated expressions -/

namespace Target

/-- **A printed text is a literal of this text.**  It means the text by the rules of the language,
and it compiles to the value of a literal that denotes the text.  In a subscript it is the key, and
this literal is borrowed directly. -/
theorem compileExpr_quoted (scope : Scope) (s : List Char) :
    (∃ q body, Value.quoted s = q :: (body ++ [q]) ∧ isQuote q = true ∧ LiteralBody q body ∧
      meaning? body = some (s.map Char.toNat)) ∧
    (compileExpr scope (Value.quoted s)).map Code.print =
      .ok ("Value::from(".toList ++ quote s ++ ")".toList) ∧
    lex (quote s) = some [.text s] ∧
    ∀ n, IsVariable n → ∃ subject, (compileExpr scope n).map Code.print = .ok subject ∧
      (compileExpr scope (n ++ '[' :: (Value.quoted s ++ [']']))).map Code.print =
        .ok ("get_index(&".toList ++ subject ++ ", &Value::from(".toList ++ quote s ++
          "))".toList) := by
  have hprinted := Value.quotedText_quoted s
  generalize Value.quoted s = cs at hprinted ⊢
  cases hprinted with
  | @mk q body hq hbody =>
    obtain ⟨hliteral, hreading, hread⟩ := Value.spelled_of_bodyText hq hbody
    have hexpr := Expr.read_literal hq hliteral
    rw [hreading] at hexpr
    have hmeaning := meaning?_eq_reading hliteral hread
    rw [hreading] at hmeaning
    refine ⟨⟨q, body, rfl, hq, hliteral, hmeaning⟩, ?_, ?_, ?_⟩
    · rw [compileExpr, hexpr]
      change Except.ok (Code.text s).print = _
      rw [Code.print_text, call]
      simp
    · have hlex := lex_quote s wordEnd_nil
      rw [List.append_nil, lex_nil] at hlex
      exact hlex
    · intro n hn
      refine ⟨(scope.resolve n).print, ?_, ?_⟩
      · rw [compileExpr, Expr.read_name hn]
        rfl
      · rw [compileExpr, Expr.read_item hn hexpr]
        change Except.ok (Code.index (scope.resolve n) (.text s)).print = _
        simp [call]

/-- The theorem at a text with keywords, a colon, brackets, marks of both kinds and a backslash at
its end. -/
theorem compileExpr_quoted_marks :
    IsVariable "d".toList ∧
      (compileExpr ⟨["d".toList], []⟩ "'a or b\\']: [\"\\\\'".toList).map Code.print =
        .ok ("Value::from(".toList ++ quote "a or b']: [\"\\".toList ++ ")".toList) ∧
      ∃ subject, (compileExpr ⟨["d".toList], []⟩ "d".toList).map Code.print = .ok subject ∧
        (compileExpr ⟨["d".toList], []⟩ "d['a or b\\']: [\"\\\\']".toList).map Code.print =
          .ok ("get_index(&".toList ++ subject ++ ", &Value::from(".toList ++
            quote "a or b']: [\"\\".toList ++ "))".toList) := by
  have hname : IsVariable "d".toList := ⟨by decide, by decide, by decide⟩
  obtain ⟨-, hcode, -, hitem⟩ :=
    compileExpr_quoted ⟨["d".toList], []⟩ "a or b']: [\"\\".toList
  exact ⟨hname, hcode, hitem "d".toList hname⟩

end Target

end TemplateCompiler
