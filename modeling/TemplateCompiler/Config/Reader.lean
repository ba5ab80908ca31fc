import TemplateCompiler.Config.Json
import TemplateCompiler.Config.Template

/-! # Reading a configuration

A reader of configurations on top of the reader of JSON.  The key of the chat template may occur
once; all other members are passed over, however often a key occurs.

An array of one item stands for a configuration whose only member is the chat template.
-/

namespace TemplateCompiler.Config

/-- How deep the value of the chat template may be nested before it is refused. -/
def depthLimit : Nat := 126

/-- The entry that a member of the configuration gives, if its value can be used. -/
def sliceOf (v : Json) : Option Slice :=
  if !v.isUsable depthLimit then none
  else
    match v with
    | .null => some { chatTemplate := none }
    | .string s => (decode? s).map fun template => { chatTemplate := some (.text template) }
    | _ => some { chatTemplate := some .other }

/-- The members of a configuration with their keys decoded. -/
def decodedMembers? (members : List (List Piece × Json)) : Option (List (List Char × Json)) :=
  members.mapM fun (key, v) => do return (← decode? key, v)

/-- Reads a configuration. -/
def readSlice : Reader := fun text =>
  match document? text with
  | some (.object members) =>
    match decodedMembers? members with
    | none => none
    | some members =>
      match members.filter (·.1 == templateKey) with
      | [] => some { chatTemplate := none }
      | [(_, v)] => sliceOf v
      | _ => none
  | some (.array [v]) => sliceOf v
  | _ => none

end TemplateCompiler.Config
