import Mathlib.Data.List.Induction
import Mathlib.Data.Prod.Lex
import Mathlib.Order.Monotone.Basic
import TemplateCompiler.Text.Position

/-! # Line and column identify an offset

A position is found by one pass that keeps a line and a column and goes back to column one at every
line feed.  Main statement: what the pass ends with are counts over the characters that start before
the offset, a later offset never has an earlier line and column, and offsets between two characters
are told apart by them (`locate_identifies`).

`charStarts` says where each character starts, and `charsBefore` is the part of it below the offset
(`charStarts_charsBefore`).  The counts are an invariant of the pass, character by character
(`placeAfter_eq`).  The order comes from one step too: every character moves the place forward
(`lt_advance`), so of two beginnings of a text the longer one ends at the later place
(`placeAfter_lt_append`).
-/

namespace TemplateCompiler.Text

/-! ## 1. Where characters start -/

/-- The characters of a text, each with the byte at which it starts, if the text itself starts at
byte `start`. -/
def charStarts (start : Nat) : List Char → List (Nat × Char)
  | [] => []
  | c :: cs => (start, c) :: charStarts (start + c.utf8Size) cs

/-- The characters of a text that start before a byte, each with the byte at which it starts. -/
def startedBefore (source : List Char) (offset : Nat) : List (Nat × Char) :=
  (charStarts 0 source).filter fun item => item.1 < offset

/-- Those of some characters that stand after every line feed among them. -/
def afterLineFeeds (items : List (Nat × Char)) : List (Nat × Char) :=
  items.filter fun item => ∀ other ∈ items, other.2 = '\n' → other.1 < item.1

/-- The offsets between two characters, at the start and at the end of a text. -/
def IsBoundary (source : List Char) (offset : Nat) : Prop :=
  ∃ before after, source = before ++ after ∧ byteLength before = offset

@[simp] theorem charStarts_nil (start : Nat) : charStarts start [] = [] := rfl

@[simp] theorem charStarts_cons (start : Nat) (c : Char) (cs : List Char) :
    charStarts start (c :: cs) = (start, c) :: charStarts (start + c.utf8Size) cs := rfl

theorem charStarts_append (start : Nat) (as bs : List Char) :
    charStarts start (as ++ bs) = charStarts start as ++ charStarts (start + byteLength as) bs := by
  induction as generalizing start with
  | nil => rfl
  | cons c as ih =>
    rw [List.cons_append, charStarts_cons, charStarts_cons, ih, byteLength_cons, Nat.add_assoc,
      List.cons_append]

/-- A character starts inside of the text that it stands in. -/
theorem lt_of_mem_charStarts {start : Nat} {cs : List Char} {item : Nat × Char}
    (h : item ∈ charStarts start cs) : start ≤ item.1 ∧ item.1 < start + byteLength cs := by
  induction cs generalizing start with
  | nil => cases h
  | cons c cs ih =>
    have hsize := c.utf8Size_pos
    rw [byteLength_cons]
    rcases List.mem_cons.1 h with rfl | h
    · dsimp only
      omega
    · have := ih h
      omega

/-- **The characters before an offset are those that start before it.**  A character that reaches
over the offset is among them, and the next one is not. -/
theorem charStarts_charsBefore (start offset : Nat) (cs : List Char) :
    charStarts start (charsBefore offset cs) =
      (charStarts start cs).filter fun item => item.1 < start + offset := by
  induction cs generalizing start offset with
  | nil => cases offset <;> rfl
  | cons c cs ih =>
    cases offset with
    | zero =>
      symm
      refine List.filter_eq_nil_iff.2 ?_
      intro item hitem
      have := (lt_of_mem_charStarts hitem).1
      simpa using this
    | succ n =>
      rw [charsBefore, charStarts_cons, charStarts_cons, List.filter_cons_of_pos (by simp), ih]
      congr 1
      -- A character that reaches over the offset leaves no offset for the rest of the text, and
      -- the rest starts behind the offset.
      refine List.filter_congr ?_
      intro item hitem
      have := (lt_of_mem_charStarts hitem).1
      rw [decide_eq_decide]
      omega

/-- More offset, more characters. -/
theorem charsBefore_isPrefix {offset offset' : Nat} (h : offset ≤ offset') (cs : List Char) :
    charsBefore offset cs <+: charsBefore offset' cs := by
  induction cs generalizing offset offset' with
  | nil => cases offset <;> exact List.nil_prefix
  | cons c cs ih =>
    cases offset with
    | zero => exact List.nil_prefix
    | succ n =>
      obtain ⟨m, rfl⟩ := Nat.exists_eq_succ_of_ne_zero (show offset' ≠ 0 by omega)
      rw [charsBefore, charsBefore, List.cons_prefix_cons]
      exact ⟨rfl, ih (by omega)⟩

/-! ## 2. What the pass counts -/

/-- Line and column after a text. -/
def placeAfter (cs : List Char) : Nat × Nat := cs.foldl advance (1, 1)

/-- One more character at the end is one more step of the pass. -/
theorem placeAfter_concat (cs : List Char) (c : Char) :
    placeAfter (cs ++ [c]) = advance (placeAfter cs) c := by
  rw [placeAfter, List.foldl_append, List.foldl_cons, List.foldl_nil, placeAfter]

section
variable {items : List (Nat × Char)} {n : Nat}

/-- A line feed at the end leaves nothing after it. -/
theorem afterLineFeeds_lineFeed (h : ∀ item ∈ items, item.1 < n) :
    afterLineFeeds (items ++ [(n, '\n')]) = [] := by
  refine List.filter_eq_nil_iff.2 ?_
  intro item hitem hlater
  have hlt : n < item.1 := of_decide_eq_true hlater (n, '\n') (by simp) rfl
  rcases List.mem_append.1 hitem with hitem | hitem
  · have := h item hitem
    omega
  · obtain rfl := List.mem_singleton.1 hitem
    exact Nat.lt_irrefl _ hlt

/-- Any other character at the end is one more after the line feeds. -/
theorem afterLineFeeds_concat (h : ∀ item ∈ items, item.1 < n) {c : Char} (hc : c ≠ '\n') :
    afterLineFeeds (items ++ [(n, c)]) = afterLineFeeds items ++ [(n, c)] := by
  have hfeeds (item : Nat × Char) :
      (∀ other ∈ items ++ [(n, c)], other.2 = '\n' → other.1 < item.1) ↔
        ∀ other ∈ items, other.2 = '\n' → other.1 < item.1 := by
    constructor
    · intro hlater other hother
      exact hlater other (List.mem_append_left _ hother)
    · intro hlater other hother hfeed
      rcases List.mem_append.1 hother with hother | hother
      · exact hlater other hother hfeed
      · obtain rfl := List.mem_singleton.1 hother
        exact absurd hfeed hc
  have hlast : ∀ other ∈ items, other.2 = '\n' → other.1 < n := fun other hother _ => h other hother
  simp only [afterLineFeeds, hfeeds, List.filter_append]
  rw [List.filter_cons_of_pos (by simpa using hlast), List.filter_nil]

end

/-- **The pass counts line feeds, and characters after the last of them.** -/
theorem placeAfter_eq (start : Nat) (cs : List Char) :
    placeAfter cs =
      (1 + (charStarts start cs).countP (·.2 = '\n'),
        1 + (afterLineFeeds (charStarts start cs)).length) := by
  -- From the end of the text, because that is where the pass takes its next step.
  induction cs using List.reverseRecOn with
  | nil => rfl
  | append_singleton cs c ih =>
    have hbefore : ∀ item ∈ charStarts start cs, item.1 < start + byteLength cs :=
      fun item hitem => (lt_of_mem_charStarts hitem).2
    rw [placeAfter_concat, ih, charStarts_append, charStarts_cons, charStarts_nil,
      List.countP_append, advance]
    by_cases hc : c = '\n'
    · subst hc
      rw [if_pos rfl, afterLineFeeds_lineFeed hbefore]
      rfl
    · rw [if_neg hc, afterLineFeeds_concat hbefore hc, List.length_append, List.countP_singleton,
        if_neg (by simpa using hc)]
      rfl

/-! ## 3. Places move forward -/

/-- Line and column, lines first. -/
def Position.lineColumn (p : Position) : ℕ ×ₗ ℕ := toLex (p.line, p.column)

theorem lineColumn_locate (source : List Char) (offset : Nat) :
    (Position.locate source offset).lineColumn =
      toLex (placeAfter (charsBefore (min offset (byteLength source)) source)) := rfl

/-- **Every character moves the place forward**, to the next column or to the next line. -/
theorem lt_advance (place : Nat × Nat) (c : Char) : toLex place < toLex (advance place c) := by
  rw [Prod.Lex.toLex_lt_toLex, advance]
  split
  · exact .inl (Nat.lt_succ_self _)
  · exact .inr ⟨rfl, Nat.lt_succ_self _⟩

theorem le_foldl_advance (place : Nat × Nat) (cs : List Char) :
    toLex place ≤ toLex (cs.foldl advance place) := by
  induction cs generalizing place with
  | nil => exact le_refl _
  | cons c cs ih => exact (lt_advance place c).le.trans (ih _)

/-- A text that goes on ends at a later place. -/
theorem placeAfter_lt_append (as : List Char) {bs : List Char} (h : bs ≠ []) :
    toLex (placeAfter as) < toLex (placeAfter (as ++ bs)) := by
  obtain ⟨c, rest, rfl⟩ := List.exists_cons_of_ne_nil h
  rw [placeAfter, placeAfter, List.foldl_append, List.foldl_cons]
  exact (lt_advance _ c).trans_le (le_foldl_advance _ rest)

/-- **A later offset has no earlier place.** -/
theorem monotone_lineColumn (source : List Char) :
    Monotone fun offset => (Position.locate source offset).lineColumn := by
  intro offset offset' h
  have hmin : min offset (byteLength source) ≤ min offset' (byteLength source) := by omega
  obtain ⟨more, hmore⟩ := charsBefore_isPrefix hmin source
  dsimp only
  rw [lineColumn_locate, lineColumn_locate, ← hmore, placeAfter, placeAfter, List.foldl_append]
  exact le_foldl_advance _ more

/-- Between two characters, the place is that of the text before. -/
theorem lineColumn_boundary (before after : List Char) :
    (Position.locate (before ++ after) (byteLength before)).lineColumn =
      toLex (placeAfter before) := by
  have hmin : min (byteLength before) (byteLength (before ++ after)) = byteLength before := by
    rw [byteLength_append]
    omega
  rw [lineColumn_locate, hmin, charsBefore_byteLength]

/-- **Between two characters, a later offset has a later place.** -/
theorem strictMonoOn_lineColumn (source : List Char) :
    StrictMonoOn (fun offset => (Position.locate source offset).lineColumn)
      {offset | IsBoundary source offset} := by
  rintro _ ⟨before, after, rfl, rfl⟩ _ ⟨before', after', hsource, rfl⟩ hlt
  have hpre := charsBefore_isPrefix hlt.le (before ++ after)
  rw [charsBefore_byteLength, hsource, charsBefore_byteLength] at hpre
  obtain ⟨more, rfl⟩ := hpre
  have hmore : more ≠ [] := by
    rintro rfl
    simp at hlt
  dsimp only
  rw [lineColumn_boundary, hsource, lineColumn_boundary]
  exact placeAfter_lt_append before hmore

/-- **Line and column identify an offset.**  The offset is cut down to the length of the text; the
line counts the line feeds that start before it, and the column the characters that start before it
and after the last of those line feeds.  A later offset has no earlier line and column, and two
offsets between characters never have the same. -/
theorem locate_identifies (source : List Char) :
    (∀ offset,
      let p := Position.locate source offset
      p.offset = min offset (byteLength source) ∧
        p.line = 1 + (startedBefore source p.offset).countP (·.2 = '\n') ∧
        p.column = 1 + (afterLineFeeds (startedBefore source p.offset)).length) ∧
      Monotone (fun offset => (Position.locate source offset).lineColumn) ∧
      Set.InjOn (fun offset => (Position.locate source offset).lineColumn)
        {offset | IsBoundary source offset} := by
  refine ⟨?_, monotone_lineColumn source, (strictMonoOn_lineColumn source).injOn⟩
  intro offset p
  have hplace : (p.line, p.column) = placeAfter (charsBefore p.offset source) := rfl
  have hstarted : charStarts 0 (charsBefore p.offset source) = startedBefore source p.offset := by
    rw [charStarts_charsBefore, Nat.zero_add, startedBefore]
  rw [placeAfter_eq 0, hstarted] at hplace
  exact ⟨rfl, congrArg Prod.fst hplace, congrArg Prod.snd hplace⟩

/-- The theorem at a text with a character of two bytes behind a line feed.  An offset inside of
that character has the place of the offset behind it, an offset past the end that of the end, and
the offsets on either side of the character are told apart. -/
theorem locate_identifies_straddled :
    startedBefore "a\né(".toList 3 = [(0, 'a'), (1, '\n'), (2, 'é')] ∧
      afterLineFeeds [(0, 'a'), (1, '\n'), (2, 'é')] = [(2, 'é')] ∧
      (Position.locate "a\né(".toList 3).line = 1 + 1 ∧
      (Position.locate "a\né(".toList 3).column = 1 + 1 ∧
      (Position.locate "a\né(".toList 9).offset = 5 ∧
      (Position.locate "a\né(".toList 3).lineColumn ≤
        (Position.locate "a\né(".toList 9).lineColumn ∧
      IsBoundary "a\né(".toList 2 ∧ IsBoundary "a\né(".toList 4 ∧
      (Position.locate "a\né(".toList 2).lineColumn ≠
        (Position.locate "a\né(".toList 4).lineColumn := by
  obtain ⟨hcounts, hmono, hinj⟩ := locate_identifies "a\né(".toList
  have hleft : IsBoundary "a\né(".toList 2 := ⟨['a', '\n'], ['é', '('], by decide, by decide⟩
  have hright : IsBoundary "a\né(".toList 4 := ⟨['a', '\n', 'é'], ['('], by decide, by decide⟩
  refine ⟨by decide, by decide, (hcounts 3).2.1, (hcounts 3).2.2, (hcounts 9).1, hmono (by decide),
    hleft, hright, ?_⟩
  intro hsame
  exact absurd (hinj hleft hright hsame) (by decide)

end TemplateCompiler.Text
