/-! # The inputs of a renderer

A renderer has a fixed list of inputs, the fields of its context.  Three are there by default;
more can be added, and adding a field twice adds it once.
-/

namespace TemplateCompiler.Target

/-- The inputs every chat template may use. -/
def defaultFields : List (List Char) :=
  ["tools".toList, "messages".toList, "add_generation_prompt".toList]

/-- Adds a field at the end, unless it is there. -/
def addField (fields : List (List Char)) (name : List Char) : List (List Char) :=
  if fields.contains name then fields else fields ++ [name]

/-- Adds several fields in their order. -/
def addFields (fields names : List (List Char)) : List (List Char) := names.foldl addField fields

end TemplateCompiler.Target
