import TemplateCompiler.Template.Parse
import TemplateCompiler.Target.Body
import TemplateCompiler.Target.Fields
import TemplateCompiler.Target.Prelude

/-! # The file of a renderer

A generated file holds a header, the prelude, the record of the renderer's inputs and the
renderer itself, a type with one function.  Only the record depends on the input fields, only
the names on the renderer's name, and only the body of the function on the template.

`compile` goes the whole way from a template to a file.  It gives a whole file or an error.
-/

namespace TemplateCompiler.Target

open Text Template

/-! ## 1. The parts of a file -/

/-- The comment at the start. -/
def headerLines : List Line :=
  [fixed 0 "// Generated from a Jinja chat template by chat-template-transpiler.",
   fixed 0 "// Do not edit by hand; regenerate from the template instead.",
   fixed 0 ""]

/-- Texts with a comma and a blank between each two. -/
def commaSeparated (texts : List (List Char)) : List Char :=
  List.intercalate ", ".toList texts

/-- The record of the inputs and its constructor. -/
def contextLines (fields : List (List Char)) : List Line :=
  let names := fields.map bindingName
  [fixed 0 "/// Inputs available to the template.",
   fixed 0 "#[derive(Debug, Clone, Default)]",
   fixed 0 "pub struct TemplateContext \x7b"] ++
  names.map (fun n => ⟨1, "pub ".toList ++ n ++ ": Value,".toList⟩) ++
  [fixed 0 "\x7d",
   fixed 0 "",
   fixed 0 "impl TemplateContext \x7b",
   fixed 1 "#[allow(clippy::too_many_arguments)]",
   ⟨1, "pub fn new(".toList ++ commaSeparated (names.map (· ++ ": Value".toList)) ++
     ") -> Self \x7b".toList⟩,
   ⟨2, "Self \x7b ".toList ++ commaSeparated names ++ " \x7d".toList⟩,
   fixed 1 "\x7d",
   fixed 0 "\x7d",
   fixed 0 ""]

/-- The type of the renderer and its function. -/
def rendererLines (name : List Char) (body : List Stmt) : List Line :=
  let type := typeName name
  [⟨0, "/// Renderer for the `".toList ++ sanitize name ++ "` chat template.".toList⟩,
   fixed 0 "#[allow(non_camel_case_types)]",
   ⟨0, "pub struct ".toList ++ type ++ ";".toList⟩,
   fixed 0 "",
   ⟨0, "impl ".toList ++ type ++ " \x7b".toList⟩,
   fixed 1 "#[allow(unused_mut, unused_variables, clippy::all)]",
   fixed 1 "pub fn render(context: &TemplateContext) -> String \x7b",
   fixed 2 "let mut __out = String::new();",
   fixed 2 "let mut __locals: HashMap<String, Value> = HashMap::new();"] ++
  stmtsLines 2 body ++
  [fixed 2 "__out",
   fixed 1 "\x7d",
   fixed 0 "\x7d"]

/-- A whole file. -/
def fileText (fields : List (List Char)) (name : List Char) (body : List Stmt) : List Char :=
  printLines headerLines ++ preludeText ++ printLines [fixed 0 ""] ++
    printLines (contextLines fields) ++ printLines (rendererLines name body)

/-! ## 2. Compiling -/

/-- The file for a list of nodes. -/
def generate (fields : List (List Char)) (name : List Char) (nodes : List Node) :
    Except Error (List Char) := do
  let body ← compileNodes { fields, bound := [] } nodes
  return fileText fields name body

/-- The file for a template.  The names of the input fields are checked first. -/
def compile (fields : List (List Char)) (name template : List Char) :
    Except Error (List Char) :=
  match fields.find? fun f => !isIdentifier f with
  | some f => .error (.unsupportedExpr f .fieldNotIdentifier none)
  | none => do
    let nodes ← parse template
    generate fields name nodes

end TemplateCompiler.Target
