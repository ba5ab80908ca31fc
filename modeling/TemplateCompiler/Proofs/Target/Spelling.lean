import Mathlib.Tactic.SplitIfs
import TemplateCompiler.Proofs.Text.Word
import TemplateCompiler.Target.Quoted
import TemplateCompiler.Target.Ident

/-! # How texts and names are spelled

What the generated code has for a text and for a name of the template, by the rules of the language
it is written in:

* a text is a literal in double quotes, where a few characters have an escape with a letter and the
  other hidden ones an escape with their code (`literalText`);
* a name stays as it is, unless the language or the generated code has a use for it
  (`bindingText`).

The tables are those of the language: which escapes have a letter, which words are keywords.  They
are written down here once more, apart from the tables that the compiler looks into, and each
section ends with the lemma that the compiler writes the same.
-/

namespace TemplateCompiler.Target

open Text

/-! ## 1. Texts -/

/-- The characters with an escape of their own, and the letters of these escapes. -/
def letterEscapes : List (Char × Char) :=
  [('\x00', '0'), ('\t', 't'), ('\n', 'n'), ('\r', 'r'), ('"', '"'), ('\\', '\\')]

/-- How a character stands in a literal. -/
def literalChar (c : Char) : List Char :=
  match letterEscapes.lookup c with
  | some letter => ['\\', letter]
  | none => if isHidden c then ['\\', 'u', '{'] ++ Nat.toDigits 16 c.toNat ++ ['}'] else [c]

/-- A text as a literal. -/
def literalText (value : List Char) : List Char := ['"'] ++ value.flatMap literalChar ++ ['"']

/-- **The compiler writes a text as this literal.** -/
theorem quote_eq_literalText (value : List Char) : quote value = literalText value := by
  have hchar (c : Char) : escapeChar c = literalChar c := by
    unfold escapeChar
    -- one case for each row of the table, and one for the characters that are in no row
    split_ifs with h1 h2 h3 h4 h5 h6 h7
    · rw [h1]; rfl
    · rw [h2]; rfl
    · rw [h3]; rfl
    · rw [h4]; rfl
    · rw [h5]; rfl
    · rw [h6]; rfl
    all_goals
      have hnone : letterEscapes.lookup c = none := by
        simp [letterEscapes, List.lookup_eq_none_iff, h1, h2, h3, h4, h5, h6]
      simp [literalChar, hnone, h7, codeEscape]
  rw [quote, literalText, funext hchar]
  rfl

/-! ## 2. Names -/

/-- The keywords that stay names when they are written raw: those in use, and those that are kept
for later. -/
def rawWords : List String :=
  ["as", "break", "const", "continue", "else", "enum", "extern", "false", "fn", "for", "if", "impl",
   "in", "let", "loop", "match", "mod", "move", "mut", "pub", "ref", "return", "static", "struct",
   "trait", "true", "type", "unsafe", "use", "where", "while", "async", "await", "dyn"] ++
  ["abstract", "become", "box", "do", "final", "gen", "macro", "override", "priv", "try", "typeof",
   "unsized", "virtual", "yield"]

/-- The words that are taken: keywords that have no raw form, the argument of a renderer, the types
it uses, and the functions of its prelude. -/
def suffixedWords : List String :=
  ["_", "crate", "self", "Self", "super"] ++ ["context"] ++
  ["Value", "LoopInfo", "TemplateContext", "HashMap", "Arc"] ++
  ["to_string_safe", "is_defined", "to_json", "as_list", "get_var", "get_prop", "get_index",
   "truthy", "contains"]

/-- The binding or the field of a name.  Names that are taken, and those with two underscores in
front, get an underscore at the end. -/
def bindingText (name : List Char) : List Char :=
  if (∃ w ∈ suffixedWords, name = w.toList) ∨ "__".toList <+: name then name ++ "_".toList
  else if ∃ w ∈ rawWords, name = w.toList then "r#".toList ++ name
  else name

/-- A table that is asked for a word. -/
theorem any_toList_iff (table words : List String) (h : table ⊆ words) (h' : words ⊆ table)
    (name : List Char) :
    table.any (·.toList == name) = true ↔ ∃ w ∈ words, name = w.toList := by
  rw [List.any_eq_true]
  constructor
  · rintro ⟨w, hw, heq⟩
    exact ⟨w, h hw, (beq_iff_eq.1 heq).symm⟩
  · rintro ⟨w, hw, rfl⟩
    exact ⟨w, h' hw, beq_self_eq_true _⟩

/-- **The compiler binds a name by this name.** -/
theorem bindingName_eq_bindingText {name : List Char} (h : isIdentifier name = true) :
    bindingName name = bindingText name := by
  have hdigit := startsWithDigit_of_isIdentifier h
  have htaken := any_toList_iff reservedNames suffixedWords (by decide) (by decide) name
  have hraw := any_toList_iff keywords rawWords (by decide) (by decide) name
  simp only [bindingName, bindingText, hdigit, isReserved, isKeyword, Bool.or_eq_true, htaken, hraw,
    List.isPrefixOf_iff_prefix]
  rfl

end TemplateCompiler.Target
