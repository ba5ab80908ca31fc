import TemplateCompiler.CommandLine.Run

/-! # The program

Runs the command line on the files of the machine.
-/

namespace TemplateCompiler

open Files

/-- The answer of an action, or else another one if the action fails. -/
def orElse (fallback : α) (action : IO α) : IO α := tryCatch action fun _ => return fallback

/-- The files of the machine, seen from the current folder. -/
def machineDisk : Disk IO where
  isFolder p := do
    let here ← IO.currentDir
    (here / String.ofList p).isDir
  isFile p := do
    let here ← IO.currentDir
    orElse false do return (← (here / String.ofList p).metadata).type == .file
  read p := orElse none do return some (← IO.FS.readBinFile (String.ofList p))
  folderName p := orElse none do
    let place ← IO.FS.realPath (String.ofList p)
    return (place.parent.bind (·.fileName)).map String.toList
  makeFolder p := orElse false do
    IO.FS.createDirAll (String.ofList p)
    return true
  write p content := orElse false do
    IO.FS.writeFile (String.ofList p) (String.ofList content)
    return true

/-- What is printed when the arguments make no sense. -/
def usage : String :=
  "Usage: chat-template [-n NAME] [-o DIR] [--stdout] [--context-field NAME]... INPUT\n"

end TemplateCompiler

/-- Runs the program. -/
def main (args : List String) : IO UInt32 := do
  let outcome ← TemplateCompiler.CommandLine.run TemplateCompiler.machineDisk (args.map (·.toList))
  IO.print (String.ofList outcome.stdout)
  IO.eprint (if outcome.exitCode = 2 then TemplateCompiler.usage else outcome.report)
  return outcome.exitCode.toUInt32
