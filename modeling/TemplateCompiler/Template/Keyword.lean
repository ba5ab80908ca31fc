/-! # Statement keywords

The first word of a tag decides what the tag is.  Seven words are known; two of them open a
block of nodes, four continue or close one, and `set` stands alone.
-/

namespace TemplateCompiler.Template

/-- The words that start a tag. -/
inductive Keyword where
  | ifWord
  | elifWord
  | elseWord
  | endifWord
  | forWord
  | endforWord
  | setWord
  deriving DecidableEq, Repr

/-- The keyword as it is written. -/
def Keyword.word : Keyword → List Char
  | .ifWord => "if".toList
  | .elifWord => "elif".toList
  | .elseWord => "else".toList
  | .endifWord => "endif".toList
  | .forWord => "for".toList
  | .endforWord => "endfor".toList
  | .setWord => "set".toList

/-- All keywords. -/
def Keyword.all : List Keyword :=
  [.ifWord, .elifWord, .elseWord, .endifWord, .forWord, .endforWord, .setWord]

/-- The keyword that a word spells. -/
def Keyword.ofWord? (w : List Char) : Option Keyword := Keyword.all.find? (·.word == w)

theorem Keyword.ofWord?_word (k : Keyword) : Keyword.ofWord? k.word = some k := by
  cases k <;> decide

theorem Keyword.word_of_ofWord? {w : List Char} {k : Keyword}
    (h : Keyword.ofWord? w = some k) : k.word = w := by
  simpa using List.find?_some h

end TemplateCompiler.Template
