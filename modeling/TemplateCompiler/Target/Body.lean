import TemplateCompiler.Template.Node
import TemplateCompiler.Target.Lower
import TemplateCompiler.Target.Stmt

/-! # From nodes to statements

Every node becomes at most one statement, in the order of the template, and the first node that
cannot be compiled decides the error.  The scope grows on the way into a loop by the loop
variable and by `loop`; a loop's own list is read in the scope around the loop.

An assignment may not have the name of an input field.
-/

namespace TemplateCompiler.Target

open Template

/-- Compiles the expression of a tag, and reports what is wrong with it at the tag. -/
def compileSnippet (scope : Scope) (s : Snippet) : Except Error Code :=
  (compileExpr scope s.source).mapError (Error.locatedAt s.position)

/-- The name by which a template sees its innermost loop. -/
def loopName : List Char := "loop".toList

/-- The scope inside a loop. -/
def Scope.inLoop (scope : Scope) (name : List Char) : Scope :=
  { scope with bound := scope.bound ++ [name, loopName] }

/-- A loop over the items of a value. -/
def loopBlock (name : List Char) (items : Code) (body : List Stmt) : Stmt :=
  .block
    [.letItems (.convert items),
     .letShadowed name,
     .eachItem (.remove name :: .letElement name :: .letLoop :: body),
     .restore name]

mutual

/-- The statements of a node. -/
def compileNode (scope : Scope) : Node → Except Error (List Stmt)
  | .text value => .ok (if value.isEmpty then [] else [.pushText value])
  | .output expr => do
    let value ← compileSnippet scope expr
    return [.pushValue (.convert value)]
  | .assign name expr =>
    if scope.fields.contains name then
      .error (.unsupportedExpr name .rebindsContextField (some expr.position))
    else do
      let value ← compileSnippet scope expr
      return [.insert name (.convert value)]
  | .choice arms => do
    let arms ← compileArms scope arms
    return [.choose arms]
  | .loop name items body => do
    let items ← compileSnippet scope items
    let body ← compileNodes (scope.inLoop name) body
    return [loopBlock name items body]
  | .template _ => .error .nestedTemplate

/-- The statements of a sequence of nodes. -/
def compileNodes (scope : Scope) : List Node → Except Error (List Stmt)
  | [] => .ok []
  | n :: rest => do
    let first ← compileNode scope n
    let more ← compileNodes scope rest
    return first ++ more

/-- The arms of a choice. -/
def compileArms (scope : Scope) : Arms → Except Error StmtArms
  | .stop => .ok .stop
  | .otherwise body => do
    let body ← compileNodes scope body
    return .otherwise body
  | .arm condition body rest => do
    let condition ← compileSnippet scope condition
    let body ← compileNodes scope body
    let rest ← compileArms scope rest
    return .arm (truthOf condition) body rest

end

end TemplateCompiler.Target
