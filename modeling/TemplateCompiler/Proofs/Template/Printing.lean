import TemplateCompiler.Proofs.Template.WellFormed

/-! # Writing a template

A list of nodes is written as a sequence of *items*: texts, and blocks with a blank on either side
of what they hold.  Items are put next to each other, but for two things that would be read as
something else:

* two texts in a row would be one text, so an empty comment is put between them;
* a brace at the end of a text would open a block together with the character that follows, so a
  blank is put behind the brace, and the block that comes next has a dash to take the blank away.

`bareTokens_print` says that the tokens of what is written are the items again, each once and in
their order.  The proof goes through the pieces: `segmentsOf` says which runs and blocks are
written, and these are a decomposition of the text (`decomposition_printItems`).
-/

namespace TemplateCompiler.Template

open Text

/-! ## 1. Items -/

/-- What a template is written with. -/
inductive Item where
  | text (value : List Char)
  /-- A block, with blanks around what it holds. -/
  | block (delimiter : Delimiter) (inner : List Char)
  deriving DecidableEq, Repr

/-- A tag with a keyword and what follows it. -/
def tagItem (k : Keyword) (argument : List Char) : Item :=
  .block .tag (k.word ++ ' ' :: argument)

/-- A tag that is a keyword and nothing else. -/
def bareTag (k : Keyword) : Item := .block .tag k.word

mutual

/-- The items of a node. -/
def Node.items : Node → List Item
  | .text value => [.text value]
  | .output expr => [.block .output expr.source]
  | .assign name value => [tagItem .setWord (name ++ " = ".toList ++ value.source)]
  | .choice arms => armsItems .ifWord arms
  | .loop name items body =>
    tagItem .forWord (name ++ " in ".toList ++ items.source) ::
      (nodesItems body ++ [bareTag .endforWord])
  | .template children => nodesItems children

/-- The items of nodes. -/
def nodesItems : List Node → List Item
  | [] => []
  | n :: rest => n.items ++ nodesItems rest

/-- The items of arms.  The condition of the first one stands after `k`. -/
def armsItems (k : Keyword) : Arms → List Item
  | .stop => [bareTag .endifWord]
  | .otherwise body => bareTag .elseWord :: (nodesItems body ++ [bareTag .endifWord])
  | .arm condition body rest =>
    tagItem k condition.source :: (nodesItems body ++ armsItems .elifWord rest)

end

/-! ## 2. Writing -/

/-- What stands right before an item. -/
inductive Preceding where
  /-- Nothing, or a block. -/
  | block
  /-- A text, with a brace at its end or not. -/
  | text (brace : Bool)
  deriving DecidableEq, Repr

/-- Whether the last character is an opening brace. -/
def endsWithBrace (text : List Char) : Bool := text.getLast? == some '{'

/-- Whether the next block needs a dash. -/
def Preceding.dashed : Preceding → Bool
  | .block => false
  | .text brace => brace

/-- The blank behind a brace. -/
def Preceding.gap (p : Preceding) : List Char := if p.dashed then [' '] else []

/-- An empty comment. -/
def emptyComment (dashed : Bool) : Block :=
  { delimiter := .comment, trimsBefore := dashed, body := [], trimsAfter := false }

/-- A block with blanks around what it holds. -/
def spacedBlock (d : Delimiter) (dashed : Bool) (inner : List Char) : Block :=
  { delimiter := d, trimsBefore := dashed, body := ' ' :: (inner ++ [' ']), trimsAfter := false }

/-- What keeps a text apart from the text before it. -/
def Preceding.separator : Preceding → List Segment
  | .block => []
  | .text brace => [.block (emptyComment brace)]

/-- Pieces as they are written. -/
def spell (pieces : List Segment) : List Char := (pieces.map Segment.source).flatten

/-- Items as they are written. -/
def printItems : Preceding → List Item → List Char
  | _, [] => []
  | p, .text value :: rest =>
    p.gap ++ spell p.separator ++ value ++ printItems (.text (endsWithBrace value)) rest
  | p, .block d inner :: rest =>
    p.gap ++ (spacedBlock d p.dashed inner).source ++ printItems .block rest

/-- Nodes as they are written. -/
def print (ns : List Node) : List Char := printItems .block (nodesItems ns)

-- a brace before a block, and two texts in a row
example : print [.text "a\x7b".toList, .output ⟨"x".toList, default⟩, .text "b".toList,
      .text "c".toList] = "a\x7b \x7b\x7b- x \x7d\x7db\x7b##\x7dc".toList := by
  decide

/-! ## 3. Items that can be written -/

/-- What an item may hold: a block, which is no comment, does not hold its closing delimiter. -/
def Item.Fits : Item → Prop
  | .text value => IsText value
  | .block d inner => d ≠ .comment ∧ ¬d.closing <:+: inner

/-- Where a pair of characters may stand in two texts that are joined. -/
theorem pair_infix_append {a b : Char} {xs ys : List Char} (h : [a, b] <:+: xs ++ ys) :
    [a, b] <:+: xs ∨ [a, b] <:+: ys ∨ (xs.getLast? = some a ∧ ys.head? = some b) := by
  obtain ⟨pre, post, heq⟩ := h
  rw [List.append_assoc] at heq
  rcases List.append_eq_append_iff.1 heq with ⟨mid, rfl, hys⟩ | ⟨mid, rfl, hys⟩
  · -- the pair starts in the first text
    match mid with
    | [] => exact .inr (.inl ⟨[], post, by simpa using hys⟩)
    | [c] =>
      obtain ⟨rfl, hb⟩ : a = c ∧ b :: post = ys := by simpa using hys
      exact .inr (.inr ⟨by simp, by simp [← hb]⟩)
    | c :: d :: more =>
      obtain ⟨rfl, rfl, -⟩ : a = c ∧ b = d ∧ post = more ++ ys := by simpa using hys
      exact .inl ⟨pre, more, by simp⟩
  · exact .inr (.inl ⟨mid, post, by simp [hys]⟩)

/-- **A block that fits is cut where it ends.** -/
theorem exact_spacedBlock {d : Delimiter} {inner : List Char} (dashed : Bool)
    (h : (Item.block d inner).Fits) : (spacedBlock d dashed inner).Exact := by
  refine ⟨fun _ => by simp [Block.inside, spacedBlock], fun _ => ?_, ?_⟩
  · change ((' ' :: inner) ++ [' ']).getLast? ≠ some '-'
    rw [List.getLast?_concat]
    decide
  intro p q heq
  rcases List.eq_nil_or_concat q with rfl | ⟨init, last, rfl⟩
  · rfl
  -- an earlier closing delimiter would lie inside, or at the blank before the closing one
  exfalso
  have hin : d.closing <:+: (' ' :: inner) ++ [' ', d.closeMark] := by
    have hcut : ((' ' :: inner) ++ [' ', d.closeMark]) ++ ['}'] =
        (p ++ d.closing ++ init) ++ [last] := by
      simpa [Block.inside, spacedBlock, dash, Delimiter.closing] using heq
    exact ⟨p, init, (List.append_inj_left' hcut rfl).symm⟩
  have hblank : ' ' ≠ d.closeMark := by cases d <;> decide
  rw [Delimiter.closing] at hin
  rcases pair_infix_append hin with hleft | hright | ⟨-, hhead⟩
  · have hcons : [d.closeMark, '}'] <:+: [' '] ++ inner := hleft
    rcases pair_infix_append hcons with hone | hinner | ⟨hlast, -⟩
    · exact absurd hone.length_le (by simp)
    · exact h.2 hinner
    · exact hblank (by simpa using hlast)
  · obtain ⟨hfirst, -⟩ : d.closeMark = ' ' ∧ '}' = d.closeMark := by
      simpa using hright.eq_of_length (by simp)
    exact hblank hfirst.symm
  · exact absurd hhead (by simp)

theorem exact_emptyComment (dashed : Bool) : (emptyComment dashed).Exact := by
  refine ⟨fun _ => by simp [Block.inside, emptyComment, dash], fun _ => by simp [emptyComment], ?_⟩
  intro p q heq
  have hlen := congrArg List.length heq
  simp only [Block.inside, emptyComment, dash, List.length_append, Delimiter.closing,
    List.length_cons, List.length_nil] at hlen
  exact List.eq_nil_of_length_eq_zero (by simp at hlen; omega)

/-! ## 4. The pieces that are written -/

/-- Whether a blank is put behind a text. -/
def needsGap (value : List Char) (rest : List Item) : Bool := !rest.isEmpty && endsWithBrace value

/-- What is put behind a text. -/
def gapAfter (value : List Char) (rest : List Item) : List Char :=
  if needsGap value rest then [' '] else []

/-- The runs and blocks of items. -/
def segmentsOf : Preceding → List Item → List Segment
  | _, [] => []
  | p, .text value :: rest =>
    p.separator ++
      .run (value ++ gapAfter value rest) :: segmentsOf (.text (endsWithBrace value)) rest
  | p, .block d inner :: rest =>
    .block (spacedBlock d p.dashed inner) :: segmentsOf .block rest

@[simp] theorem spell_nil : spell [] = [] := rfl

@[simp] theorem spell_cons (s : Segment) (pieces : List Segment) :
    spell (s :: pieces) = s.source ++ spell pieces := rfl

@[simp] theorem spell_append (as bs : List Segment) : spell (as ++ bs) = spell as ++ spell bs := by
  simp [spell]

theorem gapAfter_eq (value : List Char) (rest : List Item) :
    gapAfter value rest =
      if rest = [] then [] else (Preceding.text (endsWithBrace value)).gap := by
  rw [gapAfter, needsGap, Preceding.gap, Preceding.dashed]
  cases rest <;> cases endsWithBrace value <;> rfl

/-- What is written, from behind the blank on, is what the pieces spell. -/
theorem printItems_eq (p : Preceding) (items : List Item) :
    printItems p items = (if items = [] then [] else p.gap) ++ spell (segmentsOf p items) := by
  induction items generalizing p with
  | nil => rfl
  | cons i rest ih =>
    cases i with
    | text value => simp [printItems, segmentsOf, ih, ← gapAfter_eq, Segment.source]
    | block d inner =>
      simp [printItems, segmentsOf, ih, Segment.source, Preceding.gap, Preceding.dashed]

theorem opens_source (b : Block) (rest : List Char) : Opens (b.source ++ rest) :=
  ⟨b.delimiter, _, by rw [Block.source_eq, List.append_assoc]⟩

/-- Behind a text comes a block, or nothing. -/
theorem opens_spell_segmentsOf (brace : Bool) (items : List Item) :
    spell (segmentsOf (.text brace) items) = [] ∨
      Opens (spell (segmentsOf (.text brace) items)) := by
  cases items with
  | nil => exact .inl rfl
  | cons i rest =>
    refine .inr ?_
    cases i with
    | text value => exact opens_source (emptyComment brace) _
    | block d inner => exact opens_source (spacedBlock d brace inner) _

/-- No block opens inside a text, nor where the text meets what follows it. -/
theorem not_opens_of_text {value p q : List Char} {rest : List Item}
    (h : (Item.text value).Fits) (hq : q ≠ []) (heq : value ++ gapAfter value rest = p ++ q) :
    ¬Opens (q ++ spell (segmentsOf (.text (endsWithBrace value)) rest)) := by
  rintro ⟨d, more, hopen⟩
  have hmark : d.mark ≠ ' ' := by cases d <;> decide
  match q, hq with
  | c :: e :: tail, _ =>
    -- both characters of the delimiter lie in the text and its blank
    have hin : d.opening <:+: value ++ gapAfter value rest := by
      obtain ⟨rfl, rfl, -⟩ : c = '{' ∧ e = d.mark ∧ _ = more := by
        simpa [Delimiter.opening] using hopen
      exact ⟨p, tail, by simp [heq, Delimiter.opening]⟩
    rw [Delimiter.opening] at hin
    rcases pair_infix_append hin with hleft | hright | ⟨-, hhead⟩
    · exact h.2 d hleft
    · have hlen := hright.length_le
      unfold gapAfter at hlen
      split at hlen <;> simp at hlen
    · unfold gapAfter at hhead
      split at hhead
      · exact hmark (by simpa using hhead.symm)
      · cases hhead
  | [c], _ =>
    -- the brace is the last character: then a blank would follow it, or nothing at all
    obtain ⟨rfl, hrest⟩ : c = '{' ∧
        spell (segmentsOf (.text (endsWithBrace value)) rest) = d.mark :: more := by
      simpa [Delimiter.opening] using hopen
    have hlast : (value ++ gapAfter value rest).getLast? = some '{' := by simp [heq]
    unfold gapAfter at hlast
    split at hlast
    · simp at hlast
    · rename_i hgap
      rw [List.append_nil] at hlast
      cases rest with
      | nil => cases hrest
      | cons i rest => simp [needsGap, endsWithBrace, hlast] at hgap

theorem decomposition_separator {p : Preceding} {s : List Char} {pieces : List Segment}
    (h : Decomposition s pieces .complete) :
    Decomposition (spell p.separator ++ s) (p.separator ++ pieces) .complete := by
  cases p with
  | block => exact h
  | text brace =>
    have hblock := Decomposition.block (exact_emptyComment brace) h
    simpa [Preceding.separator, Segment.source] using hblock

/-- **What is written falls into the pieces that were meant.** -/
theorem decomposition_segmentsOf {items : List Item} (h : ∀ i ∈ items, i.Fits) (p : Preceding) :
    Decomposition (spell (segmentsOf p items)) (segmentsOf p items) .complete := by
  induction items generalizing p with
  | nil => exact .complete
  | cons i rest ih =>
    have hi := h i (by simp)
    have hrest := ih fun j hj => h j (by simp [hj])
    cases i with
    | text value =>
      have hne : value ++ gapAfter value rest ≠ [] := by simp [hi.1]
      have hrun := Decomposition.run hne (fun p q heq hq => not_opens_of_text hi hq heq)
        (opens_spell_segmentsOf (endsWithBrace value) rest) (hrest (.text (endsWithBrace value)))
      simpa [segmentsOf, Segment.source] using decomposition_separator (p := p) hrun
    | block d inner => exact .block (exact_spacedBlock p.dashed hi) (hrest .block)

/-! ## 5. The tokens of what is written -/

/-- A token without its place. -/
abbrev BareToken := TokenKind × List Char

/-- Forgets the place of a token. -/
def Token.bare (t : Token) : BareToken := (t.kind, t.value)

/-- The token of an item. -/
def Item.bare : Item → BareToken
  | .text value => (.text, value)
  | .block .tag inner => (.tag, ' ' :: (inner ++ [' ']))
  | .block _ inner => (.output, ' ' :: (inner ++ [' ']))

/-- The dash of what follows a text takes its blank, and no more. -/
theorem trimmedRun_gapAfter {value : List Char} (rest : List Item) :
    trimmedRun false (trimsBefore .complete (segmentsOf (.text (endsWithBrace value)) rest))
      (value ++ gapAfter value rest) = value := by
  have hdash : trimsBefore .complete (segmentsOf (.text (endsWithBrace value)) rest) =
      needsGap value rest := by
    cases rest with
    | nil => rfl
    | cons i rest => cases i <;> rfl
  rw [hdash, gapAfter]
  cases hgap : needsGap value rest with
  | false => simp [trimmedRun]
  | true =>
    have hlast : value.getLast? = some '{' := by
      rw [needsGap, Bool.and_eq_true, endsWithBrace, beq_iff_eq] at hgap
      exact hgap.2
    obtain ⟨init, rfl⟩ := List.getLast?_eq_some_iff.1 hlast
    calc trimEnd ((init ++ ['{']) ++ [' '])
        = trimEnd (init ++ ['{']) := trimEnd_append_of_blank _ isBlank_of_mem_space
      _ = init ++ ['{'] := trimEnd_concat_of_not_blank init (by decide)

theorem tokensOf_separator (p : Preceding) (offset : Nat) (pieces : List Segment) :
    ∃ offset', tokensOf .complete offset false (p.separator ++ pieces) =
      tokensOf .complete offset' false pieces := by
  cases p with
  | block => exact ⟨offset, rfl⟩
  | text brace => exact ⟨_, rfl⟩

theorem bare_tokensOf {items : List Item} (h : ∀ i ∈ items, i.Fits) (p : Preceding)
    (offset : Nat) :
    (tokensOf .complete offset false (segmentsOf p items)).map Token.bare =
      items.map Item.bare := by
  induction items generalizing p offset with
  | nil => rfl
  | cons i rest ih =>
    have hi := h i (by simp)
    have hrest := ih fun j hj => h j (by simp [hj])
    cases i with
    | text value =>
      obtain ⟨offset', hsep⟩ := tokensOf_separator p offset
        (.run (value ++ gapAfter value rest) :: segmentsOf (.text (endsWithBrace value)) rest)
      rw [segmentsOf, hsep, tokensOf]
      simp only [trimmedRun_gapAfter, List.isEmpty_iff, hi.1, if_false, List.map_cons, hrest,
        Token.bare, Item.bare]
    | block d inner =>
      rw [segmentsOf, tokensOf]
      cases d with
      | comment => exact absurd rfl hi.1
      | _ =>
        simp only [spacedBlock, Delimiter.tokenKind?, List.map_cons, hrest, Token.bare, Item.bare]

/-- **The tokens of what is written are the items, and the text ends in order.** -/
theorem bareTokens_printItems {items : List Item} (h : ∀ i ∈ items, i.Fits) :
    (tokenize (printItems .block items)).tokens.map Token.bare = items.map Item.bare ∧
      ∃ offset, (tokenize (printItems .block items)).ending = .finished offset := by
  have htext : printItems .block items = spell (segmentsOf .block items) := by
    rw [printItems_eq]
    split <;> rfl
  have hsegments := (decomposition_segmentsOf h .block).segments_eq
  rw [htext, tokenize, hsegments]
  exact ⟨bare_tokensOf h .block 0, _, rfl⟩

end TemplateCompiler.Template
