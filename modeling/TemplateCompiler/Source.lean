import TemplateCompiler.Config.Reader
import TemplateCompiler.Files.Disk
import TemplateCompiler.Target.Renderer

/-! # Where templates come from, and where renderers go

A template is given as a text, read from a model's configuration or read from a file of its own.
Unless it is given a name, it is named after the folder it lies in, which is normally the name
of the model.

A renderer is written to a file of its name in a given folder, which is made if it is not there.
-/

namespace TemplateCompiler

open Files

/-! ## 1. Sources -/

/-- A template and the name of its renderer. -/
structure Source where
  template : List Char
  /-- The name, reduced to the characters that names may have. -/
  name : List Char
  /-- The file that the template was read from. -/
  path : Option Path
  deriving DecidableEq, Repr

/-- Why a template cannot be read or a renderer not be written. -/
inductive SourceError where
  | configNotFound (path : Path)
  | missingTemplate (path : Path)
  | templateNotText (path : Path)
  /-- The configuration is not JSON. -/
  | invalidJson
  /-- A file cannot be read or written. -/
  | fileTrouble
  deriving DecidableEq, Repr

/-- The wording of each error, as far as it does not depend on the machine. -/
def SourceError.message : SourceError → String
  | .configNotFound p => "tokenizer_config.json not found at " ++ String.ofList p
  | .missingTemplate p => String.ofList p ++ " does not contain a 'chat_template' property"
  | .templateNotText p =>
    "'chat_template' in " ++ String.ofList p ++ " exists but it is not a string"
  | .invalidJson => "JSON error:"
  | .fileTrouble => "I/O error:"

/-- What a fault of the configuration means for its file. -/
def SourceError.ofFault (p : Path) : Config.Fault → SourceError
  | .invalid => .invalidJson
  | .missing => .missingTemplate p
  | .notText => .templateNotText p

namespace Source

/-- A template that is given as a text. -/
def ofText (template name : List Char) : Source :=
  { template, name := Target.sanitize name, path := none }

/-- The name that a template gets from its folder. -/
def nameFor [Monad m] (disk : Disk m) (p : Path) : m (List Char) := do
  return (← disk.folderName p).getD Target.defaultName

/-- The template of a configuration, by a reader of configurations. -/
def ofConfigWith [Monad m] (read : Config.Reader) (disk : Disk m) (p : Path) :
    m (Except SourceError Source) := do
  if !(← disk.isFile p) then return .error (.configNotFound p)
  match ← disk.readText p with
  | none => return .error .fileTrouble
  | some text =>
    match Config.chatTemplate read text with
    | .error fault => return .error (.ofFault p fault)
    | .ok template =>
      let name ← nameFor disk p
      return .ok { template, name := Target.sanitize name, path := some p }

/-- The template of a configuration. -/
def ofConfig [Monad m] (disk : Disk m) (p : Path) : m (Except SourceError Source) :=
  ofConfigWith Config.readSlice disk p

/-- The template in a file of its own. -/
def ofFile [Monad m] (disk : Disk m) (p : Path) (name : Option (List Char)) :
    m (Except SourceError Source) := do
  match ← disk.readText p with
  | none => return .error .fileTrouble
  | some template =>
    let name ← match name with
      | some name => pure name
      | none => nameFor disk p
    return .ok { template, name := Target.sanitize name, path := some p }

end Source

/-! ## 2. Renderers -/

/-- A generated file. -/
structure Renderer where
  name : List Char
  typeName : List Char
  code : List Char
  deriving DecidableEq, Repr

namespace Renderer

/-- Compiles a template. -/
def ofSource (fields : List (List Char)) (s : Source) : Except Error Renderer := do
  let code ← Target.compile fields s.name s.template
  return { name := s.name, typeName := Target.typeName s.name, code }

/-- The name of the file. -/
def fileName (r : Renderer) : List Char := Target.fileName r.name

/-- Writes the file into a folder, and gives its path. -/
def writeTo [Monad m] (disk : Disk m) (folder : Path) (r : Renderer) :
    m (Except SourceError Path) := do
  if !(← disk.makeFolder folder) then return .error .fileTrouble
  let p := join folder r.fileName
  if ← disk.write p r.code then return .ok p else return .error .fileTrouble

end Renderer

end TemplateCompiler
