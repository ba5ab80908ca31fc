import TemplateCompiler.Text.Position

/-! # The tree of a template

A template is a list of nodes.  Expressions are kept as text, each with the position of the tag
it was taken from; they are read when the template is compiled.
-/

namespace TemplateCompiler.Template

open Text

/-- The text of an expression and the position of its tag. -/
structure Snippet where
  source : List Char
  position : Position
  deriving DecidableEq, Repr

mutual

/-- A node of a template. -/
inductive Node where
  /-- Text that is copied. -/
  | text (value : List Char)
  /-- An expression whose value is written. -/
  | output (expr : Snippet)
  /-- An assignment, which holds for the rest of the rendering. -/
  | assign (name : List Char) (value : Snippet)
  | choice (arms : Arms)
  | loop (name : List Char) (items : Snippet) (body : List Node)
  /-- A whole template in the place of a node.  Reading a template never gives one. -/
  | template (children : List Node)

/-- The arms of a choice, in the order in which they are tried. -/
inductive Arms where
  /-- No arm is left, and there is no other text. -/
  | stop
  /-- What is rendered when no condition held. -/
  | otherwise (body : List Node)
  | arm (condition : Snippet) (body : List Node) (rest : Arms)

end

end TemplateCompiler.Template
