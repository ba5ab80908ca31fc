/-! # Runs and blocks

A template is plain text with blocks in it: `output` blocks between double braces, `tag`
blocks between a brace and a percent sign, and `comment` blocks between a brace and a number
sign.  A dash just inside a delimiter asks for the blanks on that side of the block to be
removed from the neighbouring text.

`segments` cuts a template into maximal runs of text and blocks, from left to right, and
stops at a block that is never closed.  Nothing is interpreted here, so nothing is lost:
`source_segments` says that the pieces, written one after the other, are the template.
-/

namespace TemplateCompiler.Template

/-! ## 1. Delimiters -/

/-- The three kinds of block. -/
inductive Delimiter where
  | output
  | tag
  | comment
  deriving DecidableEq, Repr

/-- The second character of the opening delimiter, after a brace. -/
def Delimiter.mark : Delimiter → Char
  | .output => '{'
  | .tag => '%'
  | .comment => '#'

/-- The first character of the closing delimiter, before a brace. -/
def Delimiter.closeMark : Delimiter → Char
  | .output => '}'
  | .tag => '%'
  | .comment => '#'

/-- The two characters that open a block. -/
def Delimiter.opening (d : Delimiter) : List Char := ['{', d.mark]

/-- The two characters that close it. -/
def Delimiter.closing (d : Delimiter) : List Char := [d.closeMark, '}']

/-- The kind of block that a brace followed by `c` opens. -/
def Delimiter.ofMark? (c : Char) : Option Delimiter :=
  if c = '{' then some .output
  else if c = '%' then some .tag
  else if c = '#' then some .comment
  else none

theorem Delimiter.mark_of_ofMark? {c : Char} {d : Delimiter}
    (h : Delimiter.ofMark? c = some d) : d.mark = c := by
  unfold Delimiter.ofMark? at h
  split at h
  · cases h; simp_all [Delimiter.mark]
  · split at h
    · cases h; simp_all [Delimiter.mark]
    · split at h
      · cases h; simp_all [Delimiter.mark]
      · cases h

/-- The block that a text opens, with what follows the opening delimiter. -/
def openedBlock? : List Char → Option (Delimiter × List Char)
  | a :: b :: rest => if a = '{' then (Delimiter.ofMark? b).map (·, rest) else none
  | _ => none

theorem eq_of_openedBlock? {cs rest : List Char} {d : Delimiter}
    (h : openedBlock? cs = some (d, rest)) : cs = d.opening ++ rest := by
  unfold openedBlock? at h
  split at h
  · split at h
    · rename_i a b r ha
      obtain ⟨d', hd, he⟩ := Option.map_eq_some_iff.1 h
      cases he
      simp [Delimiter.opening, Delimiter.mark_of_ofMark? hd, ha]
    · cases h
  · cases h

/-! ## 2. Cutting -/

/-- The text before the first place where `a` and `b` stand side by side, and the text after
the two. -/
def cutAt (a b : Char) : List Char → Option (List Char × List Char)
  | [] => none
  | c :: rest =>
    if c = a ∧ rest.head? = some b then some ([], rest.tail)
    else (cutAt a b rest).map fun (before, after) => (c :: before, after)

theorem eq_of_cutAt {a b : Char} {cs before after : List Char}
    (h : cutAt a b cs = some (before, after)) : cs = before ++ a :: b :: after := by
  induction cs generalizing before with
  | nil => simp [cutAt] at h
  | cons c rest ih =>
    unfold cutAt at h
    split at h
    · rename_i hab
      cases h
      cases rest with
      | nil => simp at hab
      | cons d tl =>
        have hd : d = b := by simpa using hab.2
        simp [hab.1, hd]
    · obtain ⟨⟨x, y⟩, hc, he⟩ := Option.map_eq_some_iff.1 h
      cases he
      simp [ih hc]

/-- The text up to the first block, and the text from there on. -/
def splitRun : List Char → List Char × List Char
  | [] => ([], [])
  | c :: rest =>
    if (openedBlock? (c :: rest)).isSome then ([], c :: rest)
    else
      let (run, after) := splitRun rest
      (c :: run, after)

theorem splitRun_append (cs : List Char) : (splitRun cs).1 ++ (splitRun cs).2 = cs := by
  induction cs with
  | nil => rfl
  | cons c rest ih =>
    unfold splitRun
    split
    · rfl
    · simpa using ih

theorem length_splitRun_lt {c : Char} {rest : List Char}
    (h : openedBlock? (c :: rest) = none) :
    (splitRun (c :: rest)).2.length < (c :: rest).length := by
  have hl : (splitRun rest).2.length ≤ rest.length := by
    have := congrArg List.length (splitRun_append rest)
    simp only [List.length_append] at this
    omega
  simp [splitRun, h]
  omega

/-! ## 3. Blocks -/

/-- A closed block.  The body is what stands between the delimiters, without the dashes. -/
structure Block where
  delimiter : Delimiter
  /-- A dash follows the opening delimiter: the text before loses its blanks at the end. -/
  trimsBefore : Bool
  body : List Char
  /-- A dash precedes the closing delimiter: the text after loses its blanks at the start. -/
  trimsAfter : Bool
  deriving DecidableEq, Repr

/-- A dash, if there is one. -/
def dash (present : Bool) : List Char := if present then ['-'] else []

/-- The block as it is written. -/
def Block.source (b : Block) : List Char :=
  b.delimiter.opening ++ dash b.trimsBefore ++ b.body ++ dash b.trimsAfter ++ b.delimiter.closing

/-- Whether a text starts with a dash. -/
def opensWithDash (cs : List Char) : Bool := cs.head? == some '-'

/-- Reads a block whose opening delimiter has been read.  The body ends at the first closing
delimiter after the opening and its dash; it may be empty, and one dash at its end belongs to
the delimiter. -/
def Block.read? (d : Delimiter) (cs : List Char) : Option (Block × List Char) :=
  let trimsBefore := opensWithDash cs
  (cutAt d.closeMark '}' (if trimsBefore then cs.tail else cs)).map fun (inner, after) =>
    let trimsAfter := inner.getLast? == some '-'
    ({ delimiter := d, trimsBefore, trimsAfter,
       body := if trimsAfter then inner.dropLast else inner }, after)

theorem Block.eq_of_read? {d : Delimiter} {cs after : List Char} {b : Block}
    (h : Block.read? d cs = some (b, after)) : d.opening ++ cs = b.source ++ after := by
  unfold Block.read? at h
  obtain ⟨⟨inner, tl⟩, hc, he⟩ := Option.map_eq_some_iff.1 h
  cases he
  have hcut := eq_of_cutAt hc
  have hlast : (if inner.getLast? == some '-' then inner.dropLast else inner) ++
      dash (inner.getLast? == some '-') = inner := by
    cases hd : inner.getLast? == some '-' with
    | false => simp [dash]
    | true =>
      obtain ⟨init, rfl⟩ := List.getLast?_eq_some_iff.1 (by simpa using hd)
      simp [dash]
  have hfirst : cs = dash (opensWithDash cs) ++ (if opensWithDash cs then cs.tail else cs) := by
    cases cs with
    | nil => rfl
    | cons c rest =>
      by_cases hc : c = '-' <;> simp [opensWithDash, dash, hc]
  calc d.opening ++ cs
      = d.opening ++ (dash (opensWithDash cs) ++ (inner ++ d.closeMark :: '}' :: after)) := by
        rw [← hcut, ← hfirst]
    _ = _ := by
        conv => lhs; rw [← hlast]
        simp [Block.source, Delimiter.closing]

/-! ## 4. Segments -/

/-- A piece of a template. -/
inductive Segment where
  | run (text : List Char)
  | block (block : Block)
  deriving DecidableEq, Repr

/-- The piece as it is written. -/
def Segment.source : Segment → List Char
  | .run text => text
  | .block b => b.source

/-- What follows the last segment: nothing, or a block that is never closed, with the text
after its opening delimiter. -/
inductive Ending where
  | complete
  | unclosed (delimiter : Delimiter) (rest : List Char)
  deriving DecidableEq, Repr

/-- The rest of the template, as it is written. -/
def Ending.source : Ending → List Char
  | .complete => []
  | .unclosed d rest => d.opening ++ rest

/-- Cuts a template into runs and blocks. -/
def segments (cs : List Char) : List Segment × Ending :=
  match cs with
  | [] => ([], .complete)
  | c :: rest =>
    match _hopen : openedBlock? (c :: rest) with
    | none =>
      let (more, ending) := segments (splitRun (c :: rest)).2
      (.run (splitRun (c :: rest)).1 :: more, ending)
    | some (d, inside) =>
      match _hread : Block.read? d inside with
      | none => ([], .unclosed d inside)
      | some (b, after) =>
        let (more, ending) := segments after
        (.block b :: more, ending)
termination_by cs.length
decreasing_by
  · exact length_splitRun_lt _hopen
  · have h1 := congrArg List.length (eq_of_openedBlock? _hopen)
    have h2 := congrArg List.length (Block.eq_of_read? _hread)
    simp [Block.source, Delimiter.opening, Delimiter.closing] at h1 h2
    simp only [List.length_cons]
    omega

/-- Nothing is lost: the segments and what follows them spell the template. -/
theorem source_segments (cs : List Char) :
    ((segments cs).1.map Segment.source).flatten ++ (segments cs).2.source = cs := by
  fun_induction segments cs with
  | case1 => rfl
  | case2 c rest h more ending hs ih =>
    rw [hs] at ih
    simpa [Segment.source, ih] using splitRun_append (c :: rest)
  | case3 c rest d inside h hb => simp [Ending.source, eq_of_openedBlock? h]
  | case4 c rest d inside h b after hb more ending hs ih =>
    rw [hs] at ih
    simp [Segment.source, ih, eq_of_openedBlock? h, Block.eq_of_read? hb]

end TemplateCompiler.Template
