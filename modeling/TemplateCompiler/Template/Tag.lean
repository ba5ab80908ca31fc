import TemplateCompiler.Text.Identifier
import TemplateCompiler.Text.Outline
import TemplateCompiler.Template.Keyword
import TemplateCompiler.Error

/-! # The text of a tag

A tag is trimmed, and its first word, up to a blank, is looked up among the keywords.  What
follows the word is read by one function per keyword:

* `condition` for `if` and `elif`: any text that is not blank;
* `loopHead` for `for`: a name, the first top-level `in` and a text that is not blank;
* `assignment` for `set`: a name, the first top-level equals sign and a text that is not blank.

A fault of the name is reported before a fault of the text after it.
-/

namespace TemplateCompiler.Template

open Text

/-- The first word of a tag. -/
def headWord (tag : List Char) : List Char := (trimStart tag).takeWhile fun c => !isBlank c

/-- What follows the keyword of a trimmed tag. -/
def remainder (k : Keyword) (tag : List Char) : List Char := trim (tag.drop k.word.length)

/-- The condition of a tag. -/
def condition (rest : List Char) : Except TagFault (List Char) :=
  if rest.isEmpty then .error .missingCondition else .ok rest

/-- The variable of a loop and the text of what it runs over. -/
def loopHead (rest : List Char) : Except TagFault (List Char × List Char) :=
  match cutWord "in".toList rest with
  | none => .error .forForm
  | some (before, after) =>
    if !isIdentifier (trim before) then .error .loopVariable
    else if (trim after).isEmpty then .error .missingIterable
    else .ok (trim before, trim after)

/-- The target of an assignment and the text of its value. -/
def assignment (rest : List Char) : Except TagFault (List Char × List Char) :=
  match cutChar '=' rest with
  | none => .error .setForm
  | some (before, after) =>
    if !isIdentifier (trim before) then .error .assignmentTarget
    else if (trim after).isEmpty then .error .missingValue
    else .ok (trim before, trim after)

end TemplateCompiler.Template
