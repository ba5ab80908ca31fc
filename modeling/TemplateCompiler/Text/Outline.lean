import TemplateCompiler.Text.Blank

/-! # The outline of an expression

Tags and expressions are cut at operators that stand at top level: outside string literals and
outside every bracket.  Two small scanners do this.

* `Scan` walks a text from its start.  It *shows* the characters at top level, an opening
  bracket that leaves top level, and a closing bracket that returns to it.  A closing bracket
  with nothing to close is shown too, and the depth stays at zero.
* `matchingClose` starts just inside a bracket and finds the bracket that closes it, whatever
  its kind.

Both leave literals out in the same way, by `Literal`: a literal runs from a quotation mark to
the next one of the same kind, and a backslash in it protects the character that follows.
-/

namespace TemplateCompiler.Text

/-! ## 1. Literals and brackets -/

/-- A quotation mark, single or double. -/
def isQuote (c : Char) : Bool := c == '\'' || c == '"'

/-- An opening bracket of any kind. -/
def isOpening (c : Char) : Bool := c == '(' || c == '[' || c == '{'

/-- A closing bracket of any kind. -/
def isClosing (c : Char) : Bool := c == ')' || c == ']' || c == '}'

/-- Where a scanner stands with respect to string literals. -/
inductive Literal where
  | outside
  | inside (quote : Char)
  /-- After a backslash in a literal. -/
  | escaped (quote : Char)
  deriving DecidableEq, Repr

/-- After one more character. -/
def Literal.next : Literal → Char → Literal
  | .outside, c => if isQuote c then .inside c else .outside
  | .inside q, c => if c = '\\' then .escaped q else if c = q then .outside else .inside q
  | .escaped q, _ => .inside q

/-- The number of open brackets after one more character.  A bracket in a literal does not
count, and a closing bracket that closes nothing leaves the number at zero. -/
def Literal.depthAfter (l : Literal) (depth : Nat) (c : Char) : Nat :=
  if l = .outside then
    if isOpening c then depth + 1 else if isClosing c then depth - 1 else depth
  else depth

/-! ## 2. The top-level scanner -/

/-- The state of a scan from the start of a text. -/
structure Scan where
  literal : Literal
  depth : Nat
  deriving DecidableEq, Repr

/-- Before the first character. -/
def Scan.start : Scan := { literal := .outside, depth := 0 }

/-- After one more character. -/
def Scan.next (s : Scan) (c : Char) : Scan :=
  { literal := s.literal.next c, depth := s.literal.depthAfter s.depth c }

/-- Whether the next character is at top level, or is the bracket that leaves or regains it. -/
def Scan.shows (s : Scan) (c : Char) : Bool :=
  s.literal = .outside && !isQuote c &&
    (if isClosing c then s.depth ≤ 1 else s.depth == 0)

/-- The characters that a scan shows, each with its place in the text. -/
def Scan.items (s : Scan) (place : Nat) : List Char → List (Nat × Char)
  | [] => []
  | c :: rest =>
    let more := (s.next c).items (place + 1) rest
    if s.shows c then (place, c) :: more else more

/-- The outline of a text: what stands at top level, with its places. -/
def outline (cs : List Char) : List (Nat × Char) := Scan.start.items 0 cs

/-! ## 3. Cutting at a character -/

/-- The text before and after the first shown `target`. -/
def Scan.cutChar (target : Char) (s : Scan) : List Char → Option (List Char × List Char)
  | [] => none
  | c :: rest =>
    if s.shows c && c == target then some ([], rest)
    else ((s.next c).cutChar target rest).map fun (before, after) => (c :: before, after)

/-- The text before and after the first top-level `target`. -/
def cutChar (target : Char) (cs : List Char) : Option (List Char × List Char) :=
  Scan.start.cutChar target cs

/-- Whether a character stands at top level. -/
def hasChar (target : Char) (cs : List Char) : Bool := (cutChar target cs).isSome

/-! ## 4. Cutting at a word -/

/-- Whether a text starts with `word` and a blank after it. -/
def startsWithWord (word cs : List Char) : Bool :=
  word.isPrefixOf cs && (cs.drop word.length).head?.any isBlank

/-- The text before and after the first shown `word` with a blank on either side.  `afterBlank`
says whether a blank stands just before. -/
def Scan.cutWord (word : List Char) (s : Scan) (afterBlank : Bool) :
    List Char → Option (List Char × List Char)
  | [] => none
  | c :: rest =>
    if afterBlank && s.shows c && startsWithWord word (c :: rest) then
      some ([], (c :: rest).drop word.length)
    else
      ((s.next c).cutWord word (isBlank c) rest).map fun (before, after) => (c :: before, after)

/-- The text before and after the first top-level `word` with a blank on either side. -/
def cutWord (word cs : List Char) : Option (List Char × List Char) :=
  Scan.start.cutWord word false cs

/-- Whether a word stands at top level, with a blank on either side. -/
def hasWord (word cs : List Char) : Bool := (cutWord word cs).isSome

theorem Scan.eq_of_cutWord {word : List Char} {s : Scan} {afterBlank : Bool}
    {cs before after : List Char} (h : s.cutWord word afterBlank cs = some (before, after)) :
    cs = before ++ word ++ after := by
  induction cs generalizing s afterBlank before with
  | nil => simp [Scan.cutWord] at h
  | cons c rest ih =>
    unfold Scan.cutWord at h
    split at h
    · rename_i hc
      have hp : word.isPrefixOf (c :: rest) = true := by
        simp only [startsWithWord, Bool.and_eq_true] at hc
        exact hc.2.1
      cases h
      obtain ⟨t, ht⟩ := List.isPrefixOf_iff_prefix.1 hp
      simp [← ht]
    · obtain ⟨⟨x, y⟩, hr, he⟩ := Option.map_eq_some_iff.1 h
      cases he
      simp [ih hr]

/-- A cut leaves a shorter rest. -/
theorem length_cutWord_lt {word cs before after : List Char}
    (h : cutWord word cs = some (before, after)) : after.length < cs.length := by
  have hs := Scan.eq_of_cutWord h
  cases before with
  | cons => simp [hs]; omega
  | nil =>
    cases cs with
    | nil => simp [cutWord, Scan.cutWord] at h
    | cons c rest =>
      simp only [cutWord, Scan.cutWord, Bool.false_and, Bool.false_eq_true, if_false] at h
      obtain ⟨⟨x, y⟩, _, he⟩ := Option.map_eq_some_iff.1 h
      simp at he

/-- The parts of a text between the top-level occurrences of `word`.  After an occurrence the
text is at top level again, so the rest is cut as a text of its own. -/
def splitWord (word cs : List Char) : List (List Char) :=
  match _hcut : cutWord word cs with
  | none => [cs]
  | some (before, after) => before :: splitWord word after
termination_by cs.length
decreasing_by exact length_cutWord_lt _hcut

theorem splitWord_eq (word cs : List Char) :
    splitWord word cs =
      match cutWord word cs with
      | none => [cs]
      | some (before, after) => before :: splitWord word after := by
  rw [splitWord]
  split <;> rename_i h <;> rw [h]

/-! ## 5. The bracket that closes -/

/-- From inside `depth` open brackets: the text up to the bracket that closes the outermost, and
the text after it. -/
def closeFrom (literal : Literal) (depth : Nat) : List Char → Option (List Char × List Char)
  | [] => none
  | c :: rest =>
    if literal = .outside && isClosing c && literal.depthAfter depth c == 0 then some ([], rest)
    else
      (closeFrom (literal.next c) (literal.depthAfter depth c) rest).map fun (inner, after) =>
        (c :: inner, after)

/-- Given the text after an opening bracket, what stands inside the bracket and what follows
it. -/
def matchingClose (cs : List Char) : Option (List Char × List Char) := closeFrom .outside 1 cs

theorem length_closeFrom_lt {literal : Literal} {depth : Nat} {cs inner after : List Char}
    (h : closeFrom literal depth cs = some (inner, after)) :
    inner.length + after.length < cs.length := by
  induction cs generalizing literal depth inner with
  | nil => simp [closeFrom] at h
  | cons c rest ih =>
    unfold closeFrom at h
    split at h
    · cases h; simp
    · obtain ⟨⟨x, y⟩, hr, he⟩ := Option.map_eq_some_iff.1 h
      cases he
      have := ih hr
      simp only [List.length_cons]
      omega

end TemplateCompiler.Text
