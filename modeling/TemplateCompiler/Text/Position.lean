/-! # Positions in a text

A position is reported three ways at once: as an offset in UTF-8 bytes, and as the line and
column a reader sees.  Columns count characters, and only a line feed ends a line.

`Position.locate` turns an offset into a position.  The offset need not be a character
boundary: what counts is which characters start before it.
-/

namespace TemplateCompiler.Text

/-! ## 1. Bytes -/

/-- Length in UTF-8 bytes. -/
def byteLength : List Char → Nat
  | [] => 0
  | c :: cs => c.utf8Size + byteLength cs

@[simp] theorem byteLength_nil : byteLength [] = 0 := rfl

@[simp] theorem byteLength_cons (c : Char) (cs : List Char) :
    byteLength (c :: cs) = c.utf8Size + byteLength cs := rfl

@[simp] theorem byteLength_append (as bs : List Char) :
    byteLength (as ++ bs) = byteLength as + byteLength bs := by
  induction as with
  | nil => simp
  | cons c as ih => simp [ih, Nat.add_assoc]

/-- The characters that start before byte `offset`.  One that straddles the offset is among
them. -/
def charsBefore : Nat → List Char → List Char
  | 0, _ => []
  | _ + 1, [] => []
  | offset + 1, c :: cs => c :: charsBefore (offset + 1 - c.utf8Size) cs

/-- The characters before the end of a part are that part. -/
theorem charsBefore_byteLength (as bs : List Char) :
    charsBefore (byteLength as) (as ++ bs) = as := by
  induction as with
  | nil => rw [byteLength_nil, charsBefore]
  | cons c as ih =>
    obtain ⟨n, hn⟩ := Nat.exists_eq_succ_of_ne_zero (Nat.ne_of_gt c.utf8Size_pos)
    have hsize : byteLength (c :: as) = n + byteLength as + 1 := by
      rw [byteLength_cons, hn, Nat.succ_eq_add_one, Nat.add_right_comm]
    rw [hsize, List.cons_append, charsBefore, hn, Nat.succ_eq_add_one, Nat.add_sub_add_right,
      Nat.add_sub_cancel_left, ih]

/-! ## 2. Lines and columns -/

/-- A place in a text: byte offset, line and column, the last two counted from one. -/
structure Position where
  offset : Nat
  line : Nat
  column : Nat
  deriving DecidableEq, Repr, Inhabited

/-- Line and column after one more character. -/
def advance (place : Nat × Nat) (c : Char) : Nat × Nat :=
  if c = '\n' then (place.1 + 1, 1) else (place.1, place.2 + 1)

/-- The position of byte `offset` of `source`, which is cut down to the length of the text. -/
def Position.locate (source : List Char) (offset : Nat) : Position :=
  let offset := min offset (byteLength source)
  let place := (charsBefore offset source).foldl advance (1, 1)
  { offset, line := place.1, column := place.2 }

/-- The text `line L, column C (offset O)`. -/
def Position.display (p : Position) : String :=
  "line " ++ toString p.line ++ ", column " ++ toString p.column ++
    " (offset " ++ toString p.offset ++ ")"

end TemplateCompiler.Text
