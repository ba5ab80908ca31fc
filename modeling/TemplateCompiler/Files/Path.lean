import TemplateCompiler.Text.Position

/-! # Paths

A path is a text; slashes divide it into parts.  Empty parts and single dots stay where they
are, two dots go up, and a slash at the start makes the path absolute.  What a path leads to
depends on the files that are there; the functions here only look at the text.
-/

namespace TemplateCompiler.Files

/-- A path, as it is written. -/
abbrev Path := List Char

/-- The part that stays where it is. -/
def stayPart : List Char := ['.']

/-- The part that goes up. -/
def upPart : List Char := ['.', '.']

/-- The longest path, in bytes. -/
def pathLimit : Nat := 4095

/-- Whether a disk accepts a path: it is not empty, not too long and has no null character. -/
def isAcceptable (p : Path) : Bool :=
  !p.isEmpty && !p.contains '\x00' && Text.byteLength p ≤ pathLimit

/-- The parts between slashes, empty ones among them. -/
def parts : Path → List (List Char)
  | [] => [[]]
  | c :: rest =>
    if c = '/' then [] :: parts rest
    else
      match parts rest with
      | [] => [[c]]
      | part :: more => (c :: part) :: more

/-- Whether a path starts at the top. -/
def isAbsolute (p : Path) : Bool := p.head? == some '/'

/-- The parts that lead somewhere.  A single dot at the start of a relative path is kept. -/
def components (p : Path) : List (List Char) :=
  let leads (part : List Char) : Bool := !part.isEmpty && part != stayPart
  match parts p with
  | first :: rest =>
    if first = stayPart then first :: rest.filter leads else (first :: rest).filter leads
  | [] => []

/-- A path with one more part. -/
def join (p : Path) (name : List Char) : Path :=
  if p.isEmpty || p.getLast? == some '/' then p ++ name else p ++ '/' :: name

/-- A path from its components. -/
def ofComponents (absolute : Bool) (cs : List (List Char)) : Path :=
  (if absolute then ['/'] else []) ++ List.intercalate ['/'] cs

/-- All shorter and shorter beginnings of a list, without the empty one. -/
def beginnings (cs : List α) : List (List α) :=
  match cs with
  | [] => []
  | c :: rest => (beginnings rest).map (c :: ·) ++ [[c]]

/-- A path and the paths of the folders around it, from the inside out.  The path itself is
kept as it is written. -/
def ancestors (p : Path) : List Path :=
  match beginnings (components p) with
  | [] => []
  | _ :: outer => p :: outer.map (ofComponents (isAbsolute p))

/-- The name at the end of a path, if it does not end by going up. -/
def fileName? (p : Path) : Option (List Char) :=
  match (components p).getLast? with
  | some name => if name = upPart ∨ name = stayPart then none else some name
  | none => none

/-- What follows the last dot of a name, if something stands before the dot. -/
def extensionOf? (name : List Char) : Option (List Char) :=
  let after := name.reverse.takeWhile (· != '.')
  match name.reverse.dropWhile (· != '.') with
  | _ :: _ :: _ => some after.reverse
  | _ => none

/-- Whether the name at the end of a path has an extension. -/
def hasExtension (p : Path) (extension : List Char) : Bool :=
  (fileName? p).bind extensionOf? == some extension

end TemplateCompiler.Files
