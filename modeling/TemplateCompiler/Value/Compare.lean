import TemplateCompiler.Value.Basic

/-! # Equality and order of values

Two integers are equal when they are the same.  Other numbers, truth values among them, are
compared as doubles.  Texts and lists are compared item by item.

Two maps are equal when they have as many entries and every entry of the first is found in the
second: the first entry of that key there has an equal value.  The order of entries does not
matter.

Numbers and texts are ordered, texts by the code points of their characters; all other pairs are
not.
-/

namespace TemplateCompiler.Value

/-! ## 1. Equality -/

mutual

/-- Whether two values are equal. -/
def equal (a b : Value) : Bool :=
  match a, b with
  | .undefined, .undefined => true
  | .null, .null => true
  | .text s, .text t => s == t
  | .list xs, .list ys => equalItems xs ys
  | .map xs, .map ys => xs.length == ys.length && equalEntries xs ys
  | .int m, .int n => m == n
  | a, b =>
    match asFloat? a, asFloat? b with
    | some x, some y => x == y
    | _, _ => false
termination_by sizeOf a + sizeOf b

/-- Whether two lists have equal items at equal places. -/
def equalItems (xs ys : List Value) : Bool :=
  match xs, ys with
  | [], [] => true
  | x :: xs, y :: ys => equal x y && equalItems xs ys
  | _, _ => false
termination_by sizeOf xs + sizeOf ys

/-- Whether every entry of the first list is found among the entries of the second.  The value
that is found is compared with the value that is looked for. -/
def equalEntries (xs ys : List (List Char × Value)) : Bool :=
  match xs with
  | [] => true
  | (key, v) :: rest =>
    (match _hfound : lookup? ys key with
      | some w => equal w v
      | none => false) &&
    equalEntries rest ys
termination_by sizeOf xs + sizeOf ys
decreasing_by
  · have := sizeOf_lookup?_lt _hfound
    simp only [List.cons.sizeOf_spec, Prod.mk.sizeOf_spec]
    omega
  · simp only [List.cons.sizeOf_spec]
    omega

end

/-! ## 2. Order -/

/-- The order of two texts: by the first character in which they differ, and a text before its
continuations. -/
def compareText : List Char → List Char → Ordering
  | [], [] => .eq
  | [], _ :: _ => .lt
  | _ :: _, [] => .gt
  | c :: cs, d :: ds =>
    match compare c.toNat d.toNat with
    | .eq => compareText cs ds
    | o => o

/-- The order of two doubles; a NaN has none. -/
def compareFloat? (x y : Float) : Option Ordering :=
  if x < y then some .lt
  else if x > y then some .gt
  else if x == y then some .eq
  else none

/-- The order of two values, if they have one. -/
def compare? : Value → Value → Option Ordering
  | .int m, .int n => some (compare m.toInt n.toInt)
  | .text s, .text t => some (compareText s t)
  | a, b =>
    match asFloat? a, asFloat? b with
    | some x, some y => compareFloat? x y
    | _, _ => none

/-- Whether a value is less than another. -/
def isLess (a b : Value) : Bool := compare? a b == some .lt

/-- Whether a value is less than another or equal to it. -/
def isAtMost (a b : Value) : Bool :=
  compare? a b == some .lt || compare? a b == some .eq

/-- Whether a value is greater than another. -/
def isGreater (a b : Value) : Bool := compare? a b == some .gt

/-- Whether a value is greater than another or equal to it. -/
def isAtLeast (a b : Value) : Bool :=
  compare? a b == some .gt || compare? a b == some .eq

end TemplateCompiler.Value
