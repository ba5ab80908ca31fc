/-! # The chat template of a configuration

A model's configuration is a JSON object, and its chat template is the string under the key
`chat_template`.  Only this entry is asked for.

How the text of a configuration is read is left to a `Reader`.  It gives the slice of the
configuration that holds this entry, and what is made of the slice does not depend on the reader.
-/

namespace TemplateCompiler.Config

/-- Why a configuration gives no template. -/
inductive Fault where
  /-- The document is not JSON, or not a configuration. -/
  | invalid
  /-- There is no template, or it is null. -/
  | missing
  /-- The template is not a string. -/
  | notText
  deriving DecidableEq, Repr

/-- The key of the chat template. -/
def templateKey : List Char := "chat_template".toList

/-- A value of a configuration: a string with its text, or a value of another kind. -/
inductive Entry where
  | text (value : List Char)
  | other
  deriving DecidableEq, Repr

/-- The part of a configuration that is asked for.  It has no entry where the key is missing or
stands for null. -/
structure Slice where
  chatTemplate : Option Entry
  deriving DecidableEq, Repr

/-- Reads the text of a configuration.  A text that is no configuration has no slice. -/
abbrev Reader := List Char → Option Slice

/-- The template in the slice of a configuration. -/
def Slice.template (slice : Slice) : Except Fault (List Char) :=
  match slice.chatTemplate with
  | none => .error .missing
  | some (.text template) => .ok template
  | some .other => .error .notText

/-- The chat template of a configuration. -/
def chatTemplate (read : Reader) (text : List Char) : Except Fault (List Char) :=
  match read text with
  | none => .error .invalid
  | some slice => slice.template

end TemplateCompiler.Config
