import TemplateCompiler.Text.Identifier

/-! # Names in the generated code

Template names, model names and file names become Rust identifiers here.

A model name is first reduced to letters, digits, underscores and hyphens; `typeName` then
makes an identifier of it, and `fileName` a file name.  A template name becomes a binding or a
field by `bindingName`: a Rust keyword is written as a raw identifier, and a name that the
generated code binds itself gets an underscore at the end.
-/

namespace TemplateCompiler.Target

open Text

/-! ## 1. Words that are taken -/

/-- Rust's keywords, strict and reserved, that may be raw identifiers. -/
def keywords : List String :=
  ["abstract", "as", "async", "await", "become", "box", "break", "const", "continue", "do",
   "dyn", "else", "enum", "extern", "false", "final", "fn", "for", "gen", "if", "impl", "in",
   "let", "loop", "macro", "match", "mod", "move", "mut", "override", "priv", "pub", "ref",
   "return", "static", "struct", "trait", "true", "try", "type", "typeof", "unsafe", "unsized",
   "use", "virtual", "where", "while", "yield"]

/-- Keywords that may not be raw identifiers, and the names that the generated code and its
prelude bind. -/
def reservedNames : List String :=
  ["_", "crate", "self", "Self", "super", "context", "Value", "LoopInfo", "TemplateContext",
   "HashMap", "Arc", "to_string_safe", "is_defined", "to_json", "as_list", "get_var",
   "get_prop", "get_index", "truthy", "contains"]

/-- Whether a word is one of Rust's keywords. -/
def isKeyword (cs : List Char) : Bool := keywords.any (·.toList == cs)

/-- Whether a word is bound already. -/
def isReserved (cs : List Char) : Bool := reservedNames.any (·.toList == cs)

/-! ## 2. Names -/

/-- The name of a renderer that has no usable name. -/
def defaultName : List Char := "GeneratedTemplate".toList

/-- Letters, digits, underscores and hyphens of a name, or the default name if it has none. -/
def sanitize (name : List Char) : List Char :=
  match name.filter fun c => isIdentChar c || c == '-' with
  | [] => defaultName
  | kept => kept

/-- The type that a renderer of this name gets. -/
def typeName (name : List Char) : List Char :=
  let ident := (sanitize name).map fun c => if c == '-' then '_' else c
  if startsWithDigit ident then '_' :: ident
  else if isKeyword ident || isReserved ident then ident ++ ['_']
  else ident

/-- The file that a renderer of this name is written to. -/
def fileName (name : List Char) : List Char := sanitize name ++ ".rs".toList

/-- The binding or field that a template name gets. -/
def bindingName (name : List Char) : List Char :=
  if startsWithDigit name then '_' :: name
  else if isReserved name || "__".toList.isPrefixOf name then name ++ ['_']
  else if isKeyword name then 'r' :: '#' :: name
  else name

end TemplateCompiler.Target
