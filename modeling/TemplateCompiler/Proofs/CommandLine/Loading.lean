import TemplateCompiler.CommandLine.Run
import TemplateCompiler.Files.Tree
import TemplateCompiler.Proofs.Config.StoredTemplate

/-! # Loading a template

A template comes from a configuration or from a file of its own, and the two ways compute its text
and its name by different code.  Main statement: they agree, whichever strict reader the
configuration is read by (`loadSource_stored`).  A configuration that holds the JSON of a map gives
back the text that the map stores, and the renderer is the one of a file that holds this text as it
is.

Loading asks the disk a few questions and changes nothing.  Section 1 answers each of them for a
tree of files.
-/

namespace TemplateCompiler

/-! ## 1. Questions to a tree -/

namespace Files.Tree

/-- That a path leads to a place where a file with this text is. -/
def HoldsAt (t : Tree) (here : Place) (p : Path) (place : Place) (text : List Char) : Prop :=
  t.lookAt here p = some (place, .file (String.ofList text).toUTF8)

section
variable {σ α β : Type} {s s' : σ} {a : α} {x : StateM σ α}

/-- A step whose outcome is known. -/
theorem run_bind_of_run {f : α → StateM σ β} (h : x.run s = (a, s')) :
    (x >>= f).run s = (f a).run s' := by
  rw [StateT.run_bind, h]
  rfl

theorem run_map_of_run {f : α → β} (h : x.run s = (a, s')) : (f <$> x).run s = (f a, s') := by
  rw [StateT.run_map, h]
  rfl

end

theorem fromUTF8?_toUTF8 (s : String) : String.fromUTF8? s.toUTF8 = some s := by
  rw [String.toUTF8_eq_toByteArray, String.fromUTF8?, dif_pos s.isValidUTF8]
  rfl

section
variable {t : Tree} {here : Place} {p : Path} {place : Place} {text : List Char}

theorem run_isFolder (t : Tree) (here : Place) (p : Path) :
    ((disk here).isFolder p).run t = (t.isFolder here p, t) := rfl

theorem HoldsAt.isFolder_eq (h : t.HoldsAt here p place text) : t.isFolder here p = false := by
  have hlook : t.lookAt here p = _ := h
  rw [isFolder, hlook]

theorem HoldsAt.run_isFile (h : t.HoldsAt here p place text) :
    ((disk here).isFile p).run t = (true, t) := by
  have hlook : t.lookAt here p = _ := h
  simp only [disk, StateT.run_bind, StateT.run_get, pure_bind, hlook]
  rfl

theorem HoldsAt.run_read (h : t.HoldsAt here p place text) :
    ((disk here).read p).run t = (some (String.ofList text).toUTF8, t) := by
  have hlook : t.lookAt here p = _ := h
  simp only [disk, StateT.run_bind, StateT.run_get, pure_bind, hlook]
  rfl

/-- The text of a file is the text that was written to it. -/
theorem HoldsAt.run_readText (h : t.HoldsAt here p place text) :
    ((disk here).readText p).run t = (some text, t) := by
  rw [Disk.readText, run_bind_of_run h.run_read]
  simp only [Option.bind_eq_bind, Option.bind_some, fromUTF8?_toUTF8, String.toList_ofList]
  rfl

theorem HoldsAt.run_folderName (h : t.HoldsAt here p place text) :
    ((disk here).folderName p).run t = (place.dropLast.getLast?, t) := by
  have hlook : t.lookAt here p = _ := h
  simp only [disk, StateT.run_bind, StateT.run_get, pure_bind, hlook]
  rfl

end

end Files.Tree

open Files Tree

/-! ## 2. Sources -/

namespace Source

variable {t : Tree} {here : Place} {p : Path} {place : Place} {text : List Char}

/-- The name for what lies at a place. -/
def nameAt (place : Place) : List Char :=
  Target.sanitize (place.dropLast.getLast?.getD Target.defaultName)

/-- **A configuration is read as its text says.** -/
theorem run_ofConfigWith (read : Config.Reader) (h : t.HoldsAt here p place text) :
    (ofConfigWith read (Tree.disk here) p).run t =
      (match Config.chatTemplate read text with
        | .error fault => .error (.ofFault p fault)
        | .ok template => .ok { template, name := nameAt place, path := some p }, t) := by
  rw [ofConfigWith, run_bind_of_run h.run_isFile]
  simp only [Bool.not_true, Bool.false_eq_true, if_false]
  rw [run_bind_of_run h.run_readText]
  cases htemplate : Config.chatTemplate read text with
  | error fault =>
    simp only [htemplate]
    rfl
  | ok template =>
    simp only [htemplate, nameFor, bind_assoc, pure_bind]
    rw [run_bind_of_run h.run_folderName]
    rfl

/-- A file of its own gives its text, under the name that is given. -/
theorem run_ofFile (h : t.HoldsAt here p place text) (name : List Char) :
    (ofFile (Tree.disk here) p (some name)).run t =
      (.ok { template := text, name := Target.sanitize name, path := some p }, t) := by
  rw [ofFile, run_bind_of_run h.run_readText]
  rfl

end Source

/-! ## 3. The two ways to load -/

namespace CommandLine

/-- That an input leads to this configuration: it is the folder of the configuration, or the
configuration itself. -/
def LeadsToConfig (t : Tree) (here : Place) (input config : Path) : Prop :=
  (t.isFolder here input = true ∧ config = join input configName) ∨
    (config = input ∧ hasExtension input "json".toList = true)

section
variable {read : Config.Reader} {t : Tree} {here : Place} {input p : Path} {place : Place}
  {text s : List Char}

/-- The name on the command line goes before the name of the folder. -/
theorem run_loadSource_config (h : t.HoldsAt here p place text)
    (hinput : LeadsToConfig t here input p) (htemplate : Config.chatTemplate read text = .ok s)
    (name : List Char) :
    (loadSource read (Tree.disk here) input (some name)).run t =
      (.ok { template := s, name := Target.sanitize name, path := some p }, t) := by
  have hsource := Source.run_ofConfigWith read h
  rw [htemplate] at hsource
  have hconfig : (if t.isFolder here input then some (join input configName)
      else if hasExtension input "json".toList then some input else none) = some p := by
    rcases hinput with ⟨hfolder, rfl⟩ | ⟨rfl, hjson⟩
    · rw [if_pos hfolder]
    · rw [h.isFolder_eq, hjson]
      rfl
  rw [loadSource, run_bind_of_run (run_isFolder t here input)]
  simp only [hconfig]
  rw [run_bind_of_run (run_map_of_run hsource)]
  rfl

theorem run_loadSource_file (h : t.HoldsAt here p place s)
    (hjson : hasExtension p "json".toList = false) (name : List Char) :
    (loadSource read (Tree.disk here) p (some name)).run t =
      (.ok { template := s, name := Target.sanitize name, path := some p }, t) := by
  have hconfig : (if t.isFolder here p then some (join p configName)
      else if hasExtension p "json".toList then some p else none) = none := by
    rw [h.isFolder_eq, hjson]
    rfl
  rw [loadSource, run_bind_of_run (run_isFolder t here p)]
  simp only [hconfig]
  rw [run_bind_of_run (run_map_of_run (Source.run_ofFile h name))]
  rfl

end

/-- **A stored template is loaded as it was stored.**  Let a file hold the JSON of a map without
doubles that is nested at most a hundred times, and let configurations be read by any strict reader.
Read as a configuration, the file gives the template if
the map has one value under the key and this is a text; without a value, or with null or the missing
value, the template is missing; with another value it is not a text; with more values the
configuration is invalid.  Nothing else in the map matters.

If the map stores a text, then loading the configuration under a given name and compiling what it
gives ends as it does for a file that holds the text itself. -/
theorem loadSource_stored (read : Config.Reader) (hread : read.IsStrict)
    (entries : List (List Char × Value))
    (hfree : (Value.map entries).isFloatFree = true) (hnesting : (Value.map entries).nesting ≤ 100)
    (text : List Char) (htext : (Value.map entries).toJson = .text text)
    (t : Tree) (here : Place) (p : Path) (place : Place) (hfile : t.HoldsAt here p place text) :
    (∃ result, (Source.ofConfigWith read (Tree.disk here) p).run t = (result, t) ∧
      (∀ s, Config.storedValues entries = [.text s] →
        result = .ok { template := s, name := Source.nameAt place, path := some p }) ∧
      (Config.storedValues entries = [] ∨ Config.storedValues entries = [.null] ∨
        Config.storedValues entries = [.undefined] → result = .error (.missingTemplate p)) ∧
      (∀ v, Config.storedValues entries = [v] → v ≠ .null → v ≠ .undefined → (∀ s, v ≠ .text s) →
        result = .error (.templateNotText p)) ∧
      (2 ≤ (Config.storedValues entries).length → result = .error .invalidJson)) ∧
    (∀ s input, Config.storedValues entries = [.text s] → LeadsToConfig t here input p →
      ∀ (t' : Tree) (here' : Place) (q : Path) (place' : Place),
        t'.HoldsAt here' q place' s → hasExtension q "json".toList = false →
          ∀ (name : List Char) (extra : List (List Char)), ∃ a b,
            (loadSource read (Tree.disk here) input (some name)).run t = (.ok a, t) ∧
            (loadSource read (Tree.disk here') q (some name)).run t' = (.ok b, t') ∧
            Renderer.ofSource (Target.addFields Target.defaultFields extra) a =
              Renderer.ofSource (Target.addFields Target.defaultFields extra) b) := by
  injection htext with htext
  subst htext
  have hlimit : (Value.map entries).nesting ≤ Config.nestingLimit :=
    Nat.le_trans hnesting (by decide)
  have htemplate := Config.chatTemplate_json hread hfree hlimit
  constructor
  · refine ⟨_, Source.run_ofConfigWith read hfile, ?_, ?_, ?_, ?_⟩
    · intro s hstored
      rw [htemplate, hstored]
      rfl
    · rintro (hstored | hstored | hstored)
      all_goals
        rw [htemplate, hstored]
        rfl
    · intro v hstored hnull hundefined hstring
      rw [htemplate, hstored]
      cases v with
      | null => exact absurd rfl hnull
      | undefined => exact absurd rfl hundefined
      | text s => exact absurd rfl (hstring s)
      | bool b => rfl
      | int n => rfl
      | float x => rfl
      | list items => rfl
      | map entries => rfl
    · intro hlength
      rw [htemplate]
      match Config.storedValues entries, hlength with
      | _ :: _ :: _, _ => rfl
  · intro s input hstored hinput t' here' q place' hraw hjson name extra
    rw [hstored] at htemplate
    exact ⟨_, _, run_loadSource_config hfile hinput htemplate name,
      run_loadSource_file hraw hjson name, rfl⟩

/-- A template with characters that JSON escapes. -/
def savedText : List Char := "\"\x01\n\\é\x7b\x7b messages[0] \x7d\x7d".toList

/-- A configuration that stores it among other entries. -/
def savedEntries : List (List Char × Value) :=
  [("eos".toList, .list [.undefined, .int (-1)]), (Config.templateKey, .text savedText),
   ("eos".toList, .null)]

/-- The path of the configuration. -/
def savedPath : Path := "m/tokenizer_config.json".toList

/-- A tree with the configuration in a folder and the template in a file of its own. -/
def savedTree : Tree :=
  { entries := [(["m".toList], .folder),
      (["m".toList, configName], .file (String.ofList (Value.map savedEntries).json).toUTF8),
      (["a.jinja".toList], .file (String.ofList savedText).toUTF8)] }

/-- The theorem at such a tree, for the reader of this library. -/
theorem loadSource_stored_saved :
    (Source.ofConfig (Tree.disk []) savedPath).run savedTree =
      (.ok { template := savedText, name := ['m'], path := some savedPath }, savedTree) ∧
    ∃ a b, (loadSource Config.readSlice (Tree.disk []) ['m'] (some ['n'])).run savedTree =
        (.ok a, savedTree) ∧
      (loadSource Config.readSlice (Tree.disk []) "a.jinja".toList (some ['n'])).run savedTree =
        (.ok b, savedTree) ∧
      Renderer.ofSource (Target.addFields Target.defaultFields [['x']]) a =
        Renderer.ofSource (Target.addFields Target.defaultFields [['x']]) b := by
  have hconfig : savedTree.HoldsAt [] savedPath ["m".toList, configName]
      (Value.map savedEntries).json := rfl
  have hraw : savedTree.HoldsAt [] "a.jinja".toList ["a.jinja".toList] savedText := rfl
  obtain ⟨⟨result, hrun, hstored, -⟩, hload⟩ := loadSource_stored Config.readSlice
    Config.isStrict_readSlice savedEntries rfl (by decide) (Value.map savedEntries).json rfl savedTree
    [] savedPath _ hconfig
  rw [hstored savedText rfl] at hrun
  exact ⟨hrun, hload savedText ['m'] rfl (.inl ⟨rfl, rfl⟩) savedTree [] _ _ hraw rfl ['n'] [['x']]⟩

end CommandLine

end TemplateCompiler
