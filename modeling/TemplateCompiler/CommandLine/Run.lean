import TemplateCompiler.CommandLine.Arguments
import TemplateCompiler.Source

/-! # A run of the program

The input is a folder with a configuration in it, a configuration, or a template in a file of its
own; a file whose name ends in `.json` is a configuration.  A name given on the command line goes
before the name of the folder.

A run ends with an exit code, a text for standard output and a report of what went wrong.  The
report says what was being done and below it why that failed.
-/

namespace TemplateCompiler.CommandLine

open Files

/-! ## 1. Failures -/

/-- Why a run fails. -/
inductive Failure where
  /-- A configuration cannot be read or a renderer not be written. -/
  | source (e : SourceError)
  /-- The template at a path cannot be read. -/
  | template (input : Path) (e : SourceError)
  /-- The template does not compile. -/
  | compile (input : Path) (e : Error)
  deriving DecidableEq, Repr

/-- A text with four blanks before each of its lines. -/
def indented (text : String) : String :=
  "    " ++ String.ofList (text.toList.flatMap fun c => if c = '\n' then "\n    ".toList else [c])

/-- A task and the single reason why it failed. -/
def causedBy (task reason : String) : String :=
  "Error: " ++ task ++ "\n\nCaused by:\n" ++ indented reason ++ "\n"

/-- The report of a failure.  Where the machine's own words would follow, the report ends; a
reason that the machine explains further is the first of several. -/
def Failure.report : Failure → String
  | .source e =>
    match e with
    | .invalidJson | .fileTrouble => "Error: " ++ e.message
    | _ => "Error: " ++ e.message ++ "\n"
  | .template input e =>
    let task := "Failed to read template " ++ String.ofList input
    match e with
    | .invalidJson | .fileTrouble => "Error: " ++ task ++ "\n\nCaused by:\n    0: " ++ e.message
    | _ => causedBy task e.message
  | .compile input e =>
    causedBy ("Failed to transpile chat template from " ++ String.ofList input) e.message

/-! ## 2. Runs -/

/-- How a run ends. -/
structure Outcome where
  exitCode : Nat
  stdout : List Char
  report : String
  deriving DecidableEq, Repr

/-- The name of a configuration file in a folder. -/
def configName : List Char := "tokenizer_config.json".toList

/-- The template that the input leads to.  A configuration is read by the given reader. -/
def loadSource [Monad m] (read : Config.Reader) (disk : Disk m) (input : Path)
    (name : Option (List Char)) : m (Except Failure Source) := do
  let isFolder ← disk.isFolder input
  let config : Option Path :=
    if isFolder then some (join input configName)
    else if hasExtension input "json".toList then some input
    else none
  let source ← match config with
    | some p => Except.mapError .source <$> Source.ofConfigWith read disk p
    | none => Except.mapError (.template input) <$> Source.ofFile disk input name
  return source.map fun s =>
    match name with
    | some name => { s with name := Target.sanitize name }
    | none => s

/-- The renderer that the arguments ask for. -/
def compileInput [Monad m] (read : Config.Reader) (disk : Disk m) (args : Arguments) :
    m (Except Failure Renderer) := do
  let fields := Target.addFields Target.defaultFields args.contextFields
  return (← loadSource read disk args.input args.name).bind fun s =>
    (Renderer.ofSource fields s).mapError (.compile args.input)

/-- The outcome of a failure. -/
def failed (f : Failure) : Outcome := { exitCode := 1, stdout := [], report := f.report }

/-- A run with arguments that make sense. -/
def execute [Monad m] (read : Config.Reader) (disk : Disk m) (args : Arguments) : m Outcome := do
  match ← compileInput read disk args with
  | .error f => return failed f
  | .ok r =>
    if args.stdout then return { exitCode := 0, stdout := r.code, report := "" }
    else
      match ← r.writeTo disk (args.outDir.getD stayPart) with
      | .error e => return failed (.source e)
      | .ok _ => return { exitCode := 0, stdout := [], report := "" }

/-- A run.  Arguments that make no sense end it with exit code two. -/
def run [Monad m] (disk : Disk m) (args : List (List Char)) : m Outcome :=
  match Arguments.read? args with
  | none => return { exitCode := 2, stdout := [], report := "" }
  | some args => execute Config.readSlice disk args

end TemplateCompiler.CommandLine
