/-! # Identifiers

Names in templates and in generated code are ASCII: a letter or underscore, then letters,
digits and underscores.
-/

namespace TemplateCompiler.Text

/-- An ASCII letter or an underscore. -/
def isIdentStart (c : Char) : Bool := c.isAlpha || c == '_'

/-- An ASCII letter, a digit or an underscore. -/
def isIdentChar (c : Char) : Bool := c.isAlphanum || c == '_'

/-- A letter or underscore, then letters, digits and underscores. -/
def isIdentifier : List Char → Bool
  | [] => false
  | c :: cs => isIdentStart c && cs.all isIdentChar

/-- Whether a text starts with a digit. -/
def startsWithDigit : List Char → Bool
  | [] => false
  | c :: _ => c.isDigit

theorem isIdentChar_of_isIdentStart {c : Char} (h : isIdentStart c = true) :
    isIdentChar c = true := by
  simp only [isIdentStart, isIdentChar, Char.isAlphanum, Bool.or_eq_true] at h ⊢
  rcases h with h | h
  · exact .inl (.inl h)
  · exact .inr h

theorem all_isIdentChar_of_isIdentifier {cs : List Char} (h : isIdentifier cs = true) :
    cs.all isIdentChar = true := by
  cases cs with
  | nil => simp [isIdentifier] at h
  | cons c rest =>
    simp only [isIdentifier, Bool.and_eq_true] at h
    simp only [List.all_cons, isIdentChar_of_isIdentStart h.1, h.2, Bool.and_self]

end TemplateCompiler.Text
