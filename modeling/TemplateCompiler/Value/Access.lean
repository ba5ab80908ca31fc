import TemplateCompiler.Value.Compare

/-! # Looking into values

Properties, items, membership, the items that a loop runs over, what a loop knows about itself,
and the assignments of a template.
-/

namespace TemplateCompiler

namespace Value

/-! ## 1. Items and properties -/

/-- The items that a loop over a value runs over.  A map gives its keys, the missing value and
null give nothing, and anything else is the only item. -/
def items : Value → List Value
  | .undefined | .null => []
  | .list xs => xs
  | .map entries => entries.map fun entry => .text entry.1
  | v => [v]

/-- A property of a map. -/
def property (v : Value) (name : List Char) : Value :=
  match v with
  | .map entries => (lookup? entries name).getD .undefined
  | _ => .undefined

/-- The item of a list at a place.  Negative places count from the end. -/
def itemAt? (xs : List α) (place : Int) : Option α :=
  let place := if place < 0 then place + xs.length else place
  if place < 0 then none else xs[place.toNat]?

/-- A subscript: a map by a text, a list or a text by an integer. -/
def index : Value → Value → Value
  | .map entries, .text key => (lookup? entries key).getD .undefined
  | .list xs, .int n => (itemAt? xs n.toInt).getD .undefined
  | .text s, .int n => ((itemAt? s n.toInt).map fun c => .text [c]).getD .undefined
  | _, _ => .undefined

/-! ## 2. Membership -/

/-- Whether a text occurs in another. -/
def occursIn (needle : List Char) : List Char → Bool
  | [] => needle.isEmpty
  | c :: rest => needle.isPrefixOf (c :: rest) || occursIn needle rest

/-- Whether a container holds an item: a text in a text, a value in a list, a key in a map. -/
def contains : Value → Value → Bool
  | .text s, .text needle => occursIn needle s
  | .list xs, item => xs.any fun v => equal v item
  | .map entries, .text key => (lookup? entries key).isSome
  | _, _ => false

end Value

/-! ## 3. Loops -/

/-- What a loop knows about itself: the place of the current item, counted from zero, and the
number of items. -/
structure LoopInfo where
  index0 : Nat
  count : Nat
  deriving DecidableEq, Repr

/-- A number as an integer of 64 bits, the largest one if it does not fit. -/
def countValue (n : Nat) : Value := .int ((Value.fitInt? n).getD Int64.maxValue)

/-- What a template sees as `loop`. -/
def LoopInfo.value (info : LoopInfo) : Value :=
  let remaining := info.count - info.index0
  .map
    [("index0".toList, countValue info.index0),
     ("index".toList, countValue (info.index0 + 1)),
     ("revindex".toList, countValue remaining),
     ("revindex0".toList, countValue (remaining - 1)),
     ("first".toList, .bool (info.index0 == 0)),
     ("last".toList, .bool (info.index0 + 1 == info.count)),
     ("length".toList, countValue info.count)]

/-! ## 4. Assignments -/

/-- The assignments of a template, in the order of their names and with no name twice. -/
abbrev Locals := List (List Char × Value)

namespace Locals

/-- The value assigned to a name. -/
def get? (locals : Locals) (name : List Char) : Option Value := Value.lookup? locals name

/-- The value assigned to a name, or else another value. -/
def getD (locals : Locals) (name : List Char) (fallback : Value) : Value :=
  (locals.get? name).getD fallback

/-- Assigns a value to a name. -/
def insert (name : List Char) (v : Value) : Locals → Locals
  | [] => [(name, v)]
  | entry :: rest =>
    match Value.compareText name entry.1 with
    | .lt => (name, v) :: entry :: rest
    | .eq => (name, v) :: rest
    | .gt => entry :: insert name v rest

/-- Takes an assignment away. -/
def remove (locals : Locals) (name : List Char) : Locals :=
  locals.filter fun entry => entry.1 != name

/-- The assigned names. -/
def names (locals : Locals) : List (List Char) := locals.map Prod.fst

end Locals

end TemplateCompiler
