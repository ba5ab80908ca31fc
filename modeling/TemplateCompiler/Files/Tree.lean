import TemplateCompiler.Files.Disk

/-! # Trees of files

A tree of folders and files in memory, without links.  A place in the tree is the list of names
on the way from the top.

A path is followed part by part.  Each part but a name needs a folder to stand in, and so does a
name; a path with a slash at its end therefore never leads to a file.
-/

namespace TemplateCompiler.Files

/-! ## 1. Trees -/

/-- A place in a tree: the names on the way from the top. -/
abbrev Place := List (List Char)

/-- What is at a place. -/
inductive Entry where
  | folder
  | file (content : ByteArray)

/-- The places of a tree below its top, which is always a folder. -/
structure Tree where
  entries : List (Place × Entry)

namespace Tree

/-- What is at a place. -/
def at? (t : Tree) (place : Place) : Option Entry :=
  if place.isEmpty then some .folder
  else (t.entries.find? fun e => e.1 == place).map Prod.snd

/-- Puts an entry at a place. -/
def put (t : Tree) (place : Place) (entry : Entry) : Tree :=
  { entries := t.entries.filter (fun e => e.1 != place) ++ [(place, entry)] }

/-- Puts a folder at a place and at all places on the way to it. -/
def putFolders (t : Tree) (place : Place) : Tree :=
  (beginnings place).foldl (fun t p => if (t.at? p).isSome then t else t.put p .folder) t

/-! ## 2. Following a path -/

/-- Why a path leads nowhere. -/
inductive Stop where
  /-- A name is not there. -/
  | missing
  /-- The path goes on after a file. -/
  | notFolder
  deriving DecidableEq, Repr

/-- One part further. -/
def step (t : Tree) (place : Place) (part : List Char) : Except Stop Place :=
  match t.at? place with
  | some .folder =>
    if part.isEmpty ∨ part = stayPart then .ok place
    else if part = upPart then .ok place.dropLast
    else if (t.at? (place ++ [part])).isSome then .ok (place ++ [part])
    else .error .missing
  | some (.file _) => .error .notFolder
  | none => .error .missing

/-- Several parts further. -/
def steps (t : Tree) : Place → List (List Char) → Except Stop Place
  | place, [] => .ok place
  | place, part :: rest => do t.steps (← t.step place part) rest

/-- Where a path starts. -/
def startOf (here : Place) (p : Path) : Place := if isAbsolute p then [] else here

/-- The place that a path leads to.  A path that no disk accepts leads nowhere. -/
def follow (t : Tree) (here : Place) (p : Path) : Except Stop Place :=
  if isAcceptable p then t.steps (startOf here p) (parts p) else .error .missing

/-- What a path leads to. -/
def lookAt (t : Tree) (here : Place) (p : Path) : Option (Place × Entry) :=
  match t.follow here p with
  | .ok place => (t.at? place).map (place, ·)
  | .error _ => none

/-- Whether a path leads to a folder. -/
def isFolder (t : Tree) (here : Place) (p : Path) : Bool :=
  match t.lookAt here p with
  | some (_, .folder) => true
  | _ => false

/-! ## 3. Changes -/

/-- The longest name, in bytes. -/
def nameLimit : Nat := 255

/-- Whether a name is short enough. -/
def isShort (name : List Char) : Bool := Text.byteLength name ≤ nameLimit

/-- Why a folder is not made. -/
inductive FolderStop where
  /-- The folder around it is not there. -/
  | missing
  | refused
  deriving DecidableEq, Repr

/-- Makes one folder.  Slashes at the end of its path do not matter. -/
def makeOne (t : Tree) (here : Place) (p : Path) : Except FolderStop Tree :=
  let trimmed := (p.reverse.dropWhile (· == '/')).reverse
  match isAcceptable p, (parts trimmed).reverse with
  | false, _ => .error .refused
  | true, [] => .error .refused
  | true, last :: before =>
    match t.steps (startOf here p) before.reverse with
    | .error .missing => .error .missing
    | .error .notFolder => .error .refused
    | .ok around =>
      match t.at? around, last.isEmpty || last == stayPart || last == upPart with
      | some .folder, false =>
        if (t.at? (around ++ [last])).isSome || !isShort last then .error .refused
        else .ok (t.put (around ++ [last]) .folder)
      | _, _ => .error .refused

/-- Makes the first of some folders, each of which stands in the next. -/
def makeAll (t : Tree) (here : Place) : List Path → Option Tree
  | [] => some t
  | p :: outer =>
    match t.makeOne here p with
    | .ok t => some t
    | .error .refused => if t.isFolder here p then some t else none
    | .error .missing =>
      match t.makeAll here outer with
      | none => none
      | some t =>
        match t.makeOne here p with
        | .ok t => some t
        | .error _ => if t.isFolder here p then some t else none

/-- Writes a file.  The folder must be there, and no folder may have the file's name. -/
def writeFile (t : Tree) (here : Place) (p : Path) (content : ByteArray) : Option Tree :=
  match isAcceptable p, (parts p).reverse with
  | false, _ => none
  | true, [] => none
  | true, name :: before =>
    match t.steps (startOf here p) before.reverse with
    | .error _ => none
    | .ok around =>
      let place := around ++ [name]
      match t.at? around, t.at? place with
      | some .folder, some .folder => none
      | some .folder, _ => if isShort name then some (t.put place (.file content)) else none
      | _, _ => none

/-! ## 4. A tree as a disk -/

/-- Replaces the tree if there is a new one, and says whether there was. -/
def change (next : Option Tree) : StateM Tree Bool :=
  match next with
  | some t => do set t; return true
  | none => return false

/-- The disk of a tree, for a program that runs at a place of it. -/
def disk (here : Place) : Disk (StateM Tree) where
  isFolder p := do return (← get).isFolder here p
  isFile p := do
    match (← get).lookAt here p with
    | some (_, .file _) => return true
    | _ => return false
  read p := do
    match (← get).lookAt here p with
    | some (_, .file content) => return some content
    | _ => return none
  folderName p := do
    match (← get).lookAt here p with
    | some (place, _) => return place.dropLast.getLast?
    | none => return none
  makeFolder p := do change ((← get).makeAll here (ancestors p))
  write p content := do change ((← get).writeFile here p (String.ofList content).toUTF8)

/-- The files that are not in an older tree, or have another content there. -/
def changedSince (t old : Tree) : List (Place × ByteArray) :=
  t.entries.filterMap fun (place, entry) =>
    match entry with
    | .folder => none
    | .file content =>
      match old.at? place with
      | some (.file before) => if before.data == content.data then none else some (place, content)
      | _ => some (place, content)

end Tree

end TemplateCompiler.Files
