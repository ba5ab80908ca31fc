import TemplateCompiler.Target.Code

/-! # Generated statements

The statements of a renderer's body.  A renderer collects text in `__out` and keeps the
template's assignments in the map `__locals`; each statement below says what it does to the two.

A loop over a template list is a block of these statements.  It binds the items of the list,
takes away an assignment that has the name of the loop variable and gives it back at the end.

Statements are printed as lines, each at a depth of four blanks for every open brace.
-/

namespace TemplateCompiler.Target

/-! ## 1. Lines -/

/-- A line of generated code and the number of braces around it. -/
structure Line where
  depth : Nat
  text : List Char
  deriving DecidableEq, Repr

/-- The line as it is written.  An empty line has no indentation. -/
def Line.print (l : Line) : List Char :=
  if l.text.isEmpty then ['\n'] else List.replicate (4 * l.depth) ' ' ++ l.text ++ ['\n']

/-- Lines, one below the other. -/
def printLines (ls : List Line) : List Char := ls.flatMap Line.print

/-- A line of fixed text. -/
def fixed (depth : Nat) (text : String) : Line := { depth, text := text.toList }

/-! ## 2. Statements -/

mutual

/-- A statement. -/
inductive Stmt where
  /-- Writes a text. -/
  | pushText (text : List Char)
  /-- Writes the text of a value. -/
  | pushValue (value : Code)
  /-- Assigns a value. -/
  | insert (name : List Char) (value : Code)
  /-- Runs the first arm whose condition holds. -/
  | choose (arms : StmtArms)
  /-- A block, which keeps its bindings to itself. -/
  | block (body : List Stmt)
  /-- Binds `__items` to the items of a value. -/
  | letItems (value : Code)
  /-- Takes an assignment away and binds `__shadowed` to it. -/
  | letShadowed (name : List Char)
  /-- Runs a body once for each of `__items`, with `__i` bound to its place. -/
  | eachItem (body : List Stmt)
  /-- Takes an assignment away. -/
  | remove (name : List Char)
  /-- Binds a loop variable to the item at `__i`. -/
  | letElement (name : List Char)
  /-- Binds what a template sees as `loop`. -/
  | letLoop
  /-- Gives back the assignment in `__shadowed`, if there is one. -/
  | restore (name : List Char)

/-- The arms of a choice.  Each condition computes a truth value. -/
inductive StmtArms where
  | stop
  | otherwise (body : List Stmt)
  | arm (condition : Code) (body : List Stmt) (rest : StmtArms)

end

/-! ## 3. Printing -/

/-- The assignment of a value that is already written. -/
def insertion (name value : List Char) : List Char :=
  "__locals.insert(".toList ++ quote name ++ ".to_string(), ".toList ++ value ++ ");".toList

/-- The removal of an assignment. -/
def removal (name : List Char) : List Char :=
  "__locals.remove(".toList ++ quote name ++ ");".toList

mutual

/-- The lines of a statement. -/
def Stmt.lines (depth : Nat) : Stmt → List Line
  | .pushText text => [⟨depth, "__out.push_str(".toList ++ quote text ++ ");".toList⟩]
  | .pushValue value =>
    [⟨depth, "__out.push_str(&to_string_safe(&".toList ++ value.print ++ "));".toList⟩]
  | .insert name value => [⟨depth, insertion name value.print⟩]
  | .choose arms => armsLines depth true arms
  | .block body =>
    fixed depth "\x7b" :: stmtsLines (depth + 1) body ++ [fixed depth "\x7d"]
  | .letItems value =>
    [⟨depth, "let __items = as_list(&".toList ++ value.print ++ ");".toList⟩]
  | .letShadowed name => [⟨depth, "let __shadowed = ".toList ++ removal name⟩]
  | .eachItem body =>
    fixed depth "for __i in 0..__items.len() \x7b" :: stmtsLines (depth + 1) body ++
      [fixed depth "\x7d"]
  | .remove name => [⟨depth, removal name⟩]
  | .letElement name =>
    [⟨depth, "let ".toList ++ bindingName name ++ " = __items[__i].clone();".toList⟩]
  | .letLoop => [fixed depth "let r#loop = Value::from(LoopInfo::new(__i, __items.len()));"]
  | .restore name =>
    [fixed depth "if let Some(__value) = __shadowed \x7b",
     ⟨depth + 1, insertion name "__value".toList⟩, fixed depth "\x7d"]

/-- The lines of a sequence of statements. -/
def stmtsLines (depth : Nat) : List Stmt → List Line
  | [] => []
  | s :: rest => s.lines depth ++ stmtsLines depth rest

/-- The lines of the arms of a choice.  Each arm but the first closes the one before it. -/
def armsLines (depth : Nat) (first : Bool) : StmtArms → List Line
  | .stop => [fixed depth "\x7d"]
  | .otherwise body =>
    fixed depth "\x7d else \x7b" :: stmtsLines (depth + 1) body ++ [fixed depth "\x7d"]
  | .arm condition body rest =>
    ⟨depth, (if first then "if " else "\x7d else if ").toList ++ condition.print ++ " \x7b".toList⟩
      :: stmtsLines (depth + 1) body ++ armsLines depth false rest

end

end TemplateCompiler.Target
