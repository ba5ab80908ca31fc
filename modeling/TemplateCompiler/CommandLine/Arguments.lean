import TemplateCompiler.Files.Path

/-! # Arguments

One input and four options:

* `-n`, `--name`: the name of the renderer;
* `-o`, `--out-dir`: the folder to write to, which may not be empty;
* `--stdout`: print the file instead of writing it;
* `--context-field`: one more input field, as often as needed.

The value of an option follows it as an argument of its own, or after an equals sign, or, for an
option of one letter, directly.  A value that is an argument of its own may not look like an
option.  After two hyphens alone everything is an input.
-/

namespace TemplateCompiler.CommandLine

open Files

/-- The arguments of a run. -/
structure Arguments where
  input : Path
  name : Option (List Char)
  outDir : Option Path
  stdout : Bool
  contextFields : List (List Char)
  deriving DecidableEq, Repr

/-- The options that take a value. -/
inductive ValueOption where
  | name
  | outDir
  | contextField
  deriving DecidableEq, Repr

/-- What has been read so far.  Each option but the context fields may be given once. -/
structure Draft where
  input : Option Path
  name : Option (List Char)
  outDir : Option Path
  stdout : Bool
  contextFields : List (List Char)

/-- Before the first argument. -/
def Draft.empty : Draft :=
  { input := none, name := none, outDir := none, stdout := false, contextFields := [] }

/-- Takes the value of an option. -/
def Draft.take (d : Draft) (o : ValueOption) (value : List Char) : Option Draft :=
  match o with
  | .name => if d.name.isSome then none else some { d with name := some value }
  | .outDir =>
    if d.outDir.isSome || value.isEmpty then none else some { d with outDir := some value }
  | .contextField => some { d with contextFields := d.contextFields ++ [value] }

/-- Takes the input. -/
def Draft.takeInput (d : Draft) (p : Path) : Option Draft :=
  if d.input.isSome || p.isEmpty then none else some { d with input := some p }

/-- Takes the option to print the file. -/
def Draft.takeStdout (d : Draft) : Option Draft :=
  if d.stdout then none else some { d with stdout := true }

/-- The option of a long name. -/
def longOption? (name : List Char) : Option ValueOption :=
  if name = "name".toList then some .name
  else if name = "out-dir".toList then some .outDir
  else if name = "context-field".toList then some .contextField
  else none

/-- The option of a letter. -/
def shortOption? (c : Char) : Option ValueOption :=
  if c = 'n' then some .name else if c = 'o' then some .outDir else none

/-- What an argument is. -/
inductive Kind where
  /-- Two hyphens alone. -/
  | divider
  | stdout
  /-- An option whose value is the next argument. -/
  | awaits (o : ValueOption)
  /-- An option with its value. -/
  | carries (o : ValueOption) (value : List Char)
  | input (p : Path)
  | unknown
  deriving DecidableEq, Repr

/-- Tells what an argument is. -/
def Kind.of (arg : List Char) : Kind :=
  match arg with
  | ['-', '-'] => .divider
  | '-' :: '-' :: rest =>
    if rest = "stdout".toList then .stdout
    else
      let name := rest.takeWhile (· != '=')
      match longOption? name, rest.dropWhile (· != '=') with
      | none, _ => .unknown
      | some o, [] => .awaits o
      | some o, _ :: value => .carries o value
  | '-' :: c :: rest =>
    match shortOption? c, rest with
    | none, _ => .unknown
    | some o, [] => .awaits o
    | some o, '=' :: value => .carries o value
    | some o, value => .carries o value
  | _ => .input arg

/-- Whether an argument can be the value of the option before it. -/
def isValue (arg : List Char) : Bool :=
  match Kind.of arg with
  | .input _ => true
  | _ => false

/-- Reads inputs only. -/
def readInputs : Draft → List (List Char) → Option Draft
  | d, [] => some d
  | d, arg :: rest => do readInputs (← d.takeInput arg) rest

/-- Reads arguments.  `awaiting` is an option whose value comes next. -/
def readFrom : Draft → Option ValueOption → List (List Char) → Option Draft
  | d, none, [] => some d
  | _, some _, [] => none
  | d, some o, arg :: rest => do
    if isValue arg then readFrom (← d.take o arg) none rest else none
  | d, none, arg :: rest => do
    match Kind.of arg with
    | .divider => readInputs d rest
    | .stdout => readFrom (← d.takeStdout) none rest
    | .awaits o => readFrom d (some o) rest
    | .carries o value => readFrom (← d.take o value) none rest
    | .input p => readFrom (← d.takeInput p) none rest
    | .unknown => none

/-- The arguments of a run, if they make sense. -/
def Arguments.read? (args : List (List Char)) : Option Arguments := do
  let d ← readFrom .empty none args
  return { input := ← d.input, name := d.name, outDir := d.outDir, stdout := d.stdout
           contextFields := d.contextFields }

end TemplateCompiler.CommandLine
