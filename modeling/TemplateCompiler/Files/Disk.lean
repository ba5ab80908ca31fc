import TemplateCompiler.Files.Path

/-! # Disks

The questions a program asks about files and the changes it makes to them, in any monad.  The
library is written against this interface: it runs on the files of the machine, and on the trees
of `Files.Tree`, where its effects can be reasoned about.
-/

namespace TemplateCompiler.Files

/-- What a program does with files. -/
structure Disk (m : Type → Type) where
  /-- Whether a path leads to a folder. -/
  isFolder : Path → m Bool
  /-- Whether a path leads to a file. -/
  isFile : Path → m Bool
  /-- The bytes of a file, if there is one and it can be read. -/
  read : Path → m (Option ByteArray)
  /-- The name of the folder that holds what a path leads to. -/
  folderName : Path → m (Option (List Char))
  /-- Makes a folder and the folders around it, and says whether the folder is there. -/
  makeFolder : Path → m Bool
  /-- Writes a text to a file, and says whether it was written. -/
  write : Path → List Char → m Bool

/-- The text of a file, if it can be read and is UTF-8. -/
def Disk.readText [Monad m] (disk : Disk m) (p : Path) : m (Option (List Char)) := do
  let bytes ← disk.read p
  return do return (← String.fromUTF8? (← bytes)).toList

end TemplateCompiler.Files
