/-! # Values

What a renderer computes with: the values of JSON, and one more for what is missing.  Integers
have 64 bits.  A map is a list of entries in the order in which they were put in; nothing stops
a key from being there twice, and the first entry of a key is the one that counts.

Truth values take part in arithmetic as the integers zero and one.
-/

namespace TemplateCompiler

/-! ## 1. The type -/

/-- A value of the template language. -/
inductive Value where
  /-- A missing variable, property or item. -/
  | undefined
  | null
  | bool (value : Bool)
  | int (value : Int64)
  | float (value : Float)
  | text (value : List Char)
  | list (items : List Value)
  | map (entries : List (List Char × Value))
  deriving Inhabited

namespace Value

/-- Whether a value is there. -/
def isDefined : Value → Bool
  | .undefined => false
  | _ => true

/-- Whether a value counts as true: the missing value, null, zero and all that is empty do
not. -/
def isTruthy : Value → Bool
  | .undefined | .null => false
  | .bool b => b
  | .int n => n != 0
  | .float x => x != 0.0
  | .text s => !s.isEmpty
  | .list items => !items.isEmpty
  | .map entries => !entries.isEmpty

/-! ## 2. Numbers -/

/-- The integer that a truth value counts as. -/
def boolInt (b : Bool) : Int64 := if b then 1 else 0

/-- The integer of a value that is one or counts as one. -/
def asInt? : Value → Option Int64
  | .int n => some n
  | .bool b => some (boolInt b)
  | _ => none

/-- The double nearest to an integer. -/
def intFloat (n : Int64) : Float := Float.ofInt n.toInt

/-- The number of a value that is one or counts as one, as a double. -/
def asFloat? : Value → Option Float
  | .float x => some x
  | .int n => some (intFloat n)
  | .bool b => some (intFloat (boolInt b))
  | _ => none

/-- An integer as one of 64 bits, if it fits. -/
def fitInt? (n : Int) : Option Int64 :=
  if Int64.minValue.toInt ≤ n ∧ n ≤ Int64.maxValue.toInt then some (Int64.ofInt n) else none

/-! ## 3. Entries -/

/-- The value of the first entry with a key. -/
def lookup? (entries : List (List Char × Value)) (key : List Char) : Option Value :=
  (entries.find? fun entry => entry.1 == key).map Prod.snd

theorem sizeOf_lookup?_lt {entries : List (List Char × Value)} {key : List Char} {v : Value}
    (h : lookup? entries key = some v) : sizeOf v < sizeOf entries := by
  obtain ⟨entry, hfind, rfl⟩ := Option.map_eq_some_iff.1 h
  have hmem := List.sizeOf_lt_of_mem (List.mem_of_find?_eq_some hfind)
  have hsnd : sizeOf entry.2 < sizeOf entry := by
    obtain ⟨k, w⟩ := entry
    simp only [Prod.mk.sizeOf_spec]
    omega
  omega

end Value

end TemplateCompiler
