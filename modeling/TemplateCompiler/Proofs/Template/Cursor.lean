import TemplateCompiler.Proofs.Template.Placement

/-! # Asking for one token after another

A template can also be read lazily.  A `Cursor` holds the text that is left, its offset, and
whether the last block ended with a dash; `Cursor.next` goes round by round, one piece in each
round, until a piece gives a token or the pieces are over.  It looks for the dash of the block that
follows a run before it cuts the run, and again when it reads the block.

What is still to come from a cursor is its `stream`.  One round takes a piece off it
(`Cursor.stream_round`), one call a token (`Cursor.stream_next`), and by induction the answers to
any number of calls are the tokens of the template and then, for ever, how it ends
(`Cursor.answer_eq`).  With the decomposition of the template and the places of its pieces this
says what every call answers (`tokens_of_decomposition`).
-/

namespace TemplateCompiler.Template

open Text

/-! ## 1. Cursors -/

/-- How far a template has been read. -/
structure Cursor where
  rest : List Char
  offset : Nat
  /-- The block just read ended with a dash. -/
  trims : Bool
  deriving DecidableEq, Repr

/-- What a call gives. -/
inductive Answer where
  | token (t : Token)
  | ending (e : StreamEnd)
  deriving DecidableEq, Repr

/-- Whether a block opens here, and with a dash. -/
def dashAhead (cs : List Char) : Bool :=
  match openedBlock? cs with
  | some (_, inside) => opensWithDash inside
  | none => false

/-- The cursor after a piece. -/
def Cursor.past (c : Cursor) (p : Segment) (after : List Char) : Cursor :=
  { rest := after, offset := c.offset + byteLength p.source, trims := endsWithDash (some p) }

/-- Reads one piece.  There is no answer yet if the piece is a comment, or a run of which nothing is
left. -/
def Cursor.round (c : Cursor) : Option Answer × Cursor :=
  match c.rest with
  | [] => (some (.ending (.finished c.offset)), c)
  | first :: more =>
    match openedBlock? (first :: more) with
    | none =>
      let (text, after) := splitRun (first :: more)
      ((tokenOf? c.offset c.trims (dashAhead after) (.run text)).map .token,
        c.past (.run text) after)
    | some (d, inside) =>
      match Block.read? d inside with
      | none => (some (.ending (.unclosed d c.offset)), { c with trims := false })
      | some (b, after) =>
        ((tokenOf? c.offset c.trims false (.block b)).map .token, c.past (.block b) after)

/-- A round without an answer leaves less to read. -/
theorem Cursor.length_round {c c' : Cursor} (h : c.round = (none, c')) :
    c'.rest.length < c.rest.length := by
  unfold Cursor.round at h
  split at h
  · cases h
  · rename_i first more hrest
    rw [hrest]
    split at h
    · rename_i hopen
      cases congrArg Prod.snd h
      exact length_splitRun_lt hopen
    · rename_i d inside hopen
      split at h
      · cases h
      · rename_i b after hread
        cases congrArg Prod.snd h
        have hopened := congrArg List.length (eq_of_openedBlock? hopen)
        have hblock := congrArg List.length (Block.eq_of_read? hread)
        simp [Block.source, Delimiter.opening, Delimiter.closing] at hopened hblock
        simp only [List.length_cons]
        omega

/-- Answers a call: goes round until there is an answer. -/
def Cursor.next (c : Cursor) : Answer × Cursor :=
  match _h : c.round with
  | (some a, c') => (a, c')
  | (none, c') => c'.next
termination_by c.rest.length
decreasing_by exact Cursor.length_round _h

/-- The answer to a call, after `n` calls before it. -/
def Cursor.answer (c : Cursor) : Nat → Answer
  | 0 => c.next.1
  | n + 1 => c.next.2.answer n

/-- Before a template. -/
def Cursor.start (s : List Char) : Cursor := { rest := s, offset := 0, trims := false }

/-! ## 2. What is still to come -/

/-- How the pieces from some offset on end. -/
def endAt (offset : Nat) (pieces : List Segment) : Ending → StreamEnd
  | .complete => .finished (offset + byteLength (pieces.map Segment.source).flatten)
  | .unclosed d _ => .unclosed d (offset + byteLength (pieces.map Segment.source).flatten)

/-- The tokens that are still to come, and how they end. -/
def Cursor.stream (c : Cursor) : TokenStream :=
  { tokens := tokensOf (segments c.rest).2 c.offset c.trims (segments c.rest).1
    ending := endAt c.offset (segments c.rest).1 (segments c.rest).2 }

theorem endAt_cons (offset : Nat) (p : Segment) (pieces : List Segment) (ending : Ending) :
    endAt offset (p :: pieces) ending = endAt (offset + byteLength p.source) pieces ending := by
  cases ending <;> simp [endAt, Nat.add_assoc]

/-- The dash of the next block is seen from before the run. -/
theorem trimsBefore_segments {cs : List Char} (h : cs = [] ∨ Opens cs) :
    trimsBefore (segments cs).2 (segments cs).1 = dashAhead cs := by
  rcases h with rfl | ⟨d, inside, rfl⟩
  · rw [segments]
    rfl
  · rw [dashAhead, openedBlock?_opening]
    cases hread : Block.read? d inside with
    | none =>
      rw [segments_unclosed hread]
      rfl
    | some r =>
      obtain ⟨b, after⟩ := r
      rw [segments_block hread]
      rw [Block.read?_def] at hread
      obtain ⟨⟨inner, tl⟩, -, heq⟩ := Option.map_eq_some_iff.1 hread
      cases heq
      rfl

theorem TokenStream.ext {a b : TokenStream} (ht : a.tokens = b.tokens)
    (he : a.ending = b.ending) : a = b := by
  cases a
  cases b
  cases ht
  cases he
  rfl

/-- What a round leaves of the stream. -/
def Follows (before : TokenStream) : Option Answer → TokenStream → Prop
  | none, after => before = after
  | some (.token t), after => before = { after with tokens := t :: after.tokens }
  | some (.ending e), after => before = { tokens := [], ending := e } ∧ after = before

/-- A piece that is read takes its token, if it has one, off the stream. -/
theorem follows_piece {c : Cursor} {p : Segment} {after : List Char} {atEnd : Bool}
    (hsegments : segments c.rest = (p :: (segments after).1, (segments after).2))
    (hend : tokenOf? c.offset c.trims atEnd p =
      tokenOf? c.offset c.trims (trimsBefore (segments after).2 (segments after).1) p) :
    Follows c.stream ((tokenOf? c.offset c.trims atEnd p).map .token) (c.past p after).stream := by
  have htokens : c.stream.tokens =
      (tokenOf? c.offset c.trims atEnd p).toList ++ (c.past p after).stream.tokens := by
    simp only [Cursor.stream, hsegments, tokensOf_cons, hend]
    rfl
  have hending : c.stream.ending = (c.past p after).stream.ending := by
    simp only [Cursor.stream, hsegments, endAt_cons]
    rfl
  cases htoken : tokenOf? c.offset c.trims atEnd p with
  | none =>
    rw [htoken] at htokens
    exact TokenStream.ext htokens hending
  | some t =>
    rw [htoken] at htokens
    exact TokenStream.ext htokens hending

/-- **One round takes one piece off the stream.** -/
theorem Cursor.stream_round (c : Cursor) : Follows c.stream c.round.1 c.round.2.stream := by
  unfold Cursor.round
  split
  · rename_i hrest
    refine ⟨?_, rfl⟩
    rw [Cursor.stream, hrest, segments]
    rfl
  · rename_i first more hrest
    split
    · rename_i hopen
      obtain ⟨-, hend⟩ := splitRun_spec (first :: more)
      refine follows_piece ?_ ?_
      · rw [hrest, segments_run hopen]
      · rw [trimsBefore_segments hend]
    · rename_i d inside hopen
      have htext : c.rest = d.opening ++ inside := by rw [hrest, eq_of_openedBlock? hopen]
      split
      · rename_i hread
        have hsegments := segments_unclosed hread
        rw [← htext] at hsegments
        constructor
        · rw [Cursor.stream, hsegments]
          rfl
        · simp only [Cursor.stream, hsegments]
          rfl
      · rename_i b after hread
        have hsegments := segments_block hread
        rw [← htext] at hsegments
        exact follows_piece (p := .block b) hsegments rfl

/-- **One call takes one token off the stream**, or finds that there is none. -/
theorem Cursor.stream_next (c : Cursor) : Follows c.stream (some c.next.1) c.next.2.stream := by
  fun_induction Cursor.next c with
  | case1 c a c' h =>
    have hround := c.stream_round
    rwa [h] at hround
  | case2 c c' h ih =>
    have hround := c.stream_round
    rw [h] at hround
    rw [show c.stream = c'.stream from hround]
    exact ih

/-- The answer that a stream gives at a place. -/
def TokenStream.answer (ts : TokenStream) (n : Nat) : Answer :=
  match ts.tokens[n]? with
  | some t => .token t
  | none => .ending ts.ending

/-- **Every call is answered by the next token, and after the last one by the ending.** -/
theorem Cursor.answer_eq (c : Cursor) (n : Nat) : c.answer n = c.stream.answer n := by
  induction n generalizing c with
  | zero =>
    have hnext := c.stream_next
    rw [Cursor.answer]
    cases h : c.next.1 with
    | token t =>
      rw [h] at hnext
      rw [show c.stream = _ from hnext]
      rfl
    | ending e =>
      rw [h] at hnext
      rw [hnext.1]
      rfl
  | succ n ih =>
    have hnext := c.stream_next
    rw [Cursor.answer, ih]
    cases h : c.next.1 with
    | token t =>
      rw [h] at hnext
      rw [show c.stream = _ from hnext]
      rfl
    | ending e =>
      rw [h] at hnext
      rw [hnext.2, hnext.1]
      rfl

/-! ## 3. The tokens of a template -/

/-- What is still to come at the start is all there is. -/
theorem Cursor.stream_start (s : List Char) : (Cursor.start s).stream = tokenize s := by
  have hspell := source_segments s
  refine TokenStream.ext rfl ?_
  change endAt 0 (segments s).1 (segments s).2 = _
  rw [tokenize]
  cases hending : (segments s).2 with
  | unclosed d rest => simp [endAt, hending]
  | complete =>
    rw [hending, Ending.source, List.append_nil] at hspell
    simp [endAt, hending, hspell]

/-- **The tokens of a template are those of its pieces, in their order and each at its place.**
There is one decomposition, and it loses nothing; call after call gives its tokens, and then the
end of the template or the block that is not closed again and again; the positions of the tokens
increase and lie before that end. -/
theorem tokens_of_decomposition (s : List Char) :
    ∃ (pieces : List Segment) (ending : Ending),
      Decomposition s pieces ending ∧
      (∀ pieces' ending', Decomposition s pieces' ending' →
        pieces' = pieces ∧ ending' = ending) ∧
      (pieces.map Segment.source).flatten ++ ending.source = s ∧
      tokenize s =
        { tokens := placedTokens pieces ending, ending := streamEnd s pieces ending } ∧
      (∀ n, (Cursor.start s).answer n = (tokenize s).answer n) ∧
      (tokenize s).tokens.Pairwise (·.offset < ·.offset) ∧
      ∀ t ∈ (tokenize s).tokens, t.offset < (tokenize s).ending.offset := by
  have h := decomposition_segments s
  have htokens := tokenize_eq h
  refine ⟨(segments s).1, (segments s).2, h, fun pieces' ending' h' => ?_, h.spells, htokens,
    fun n => ?_, ?_, fun t ht => ?_⟩
  · rw [h'.segments_eq]
    exact ⟨rfl, rfl⟩
  · rw [Cursor.answer_eq, Cursor.stream_start]
  · rw [htokens]
    exact pairwise_placedTokens h.source_ne_nil _
  · rw [htokens] at ht ⊢
    exact offset_lt_of_mem h ht

/-- A template with a dash on either side of a block, one at the end of a comment and one on a block
that is not closed. -/
def dashedTemplate : List Char :=
  "a \x7b\x7b- é -\x7d\x7d \x7b#c-#\x7d b \x7b%- y".toList

/-- The theorem at this template: the run between the first two blocks gives no token. -/
theorem tokens_of_decomposition_dashes :
    (Cursor.start dashedTemplate).answer 0 =
        .token { kind := .text, value := ['a'], offset := 0 } ∧
      (Cursor.start dashedTemplate).answer 1 =
        .token { kind := .output, value := [' ', 'é', ' '], offset := 2 } ∧
      (Cursor.start dashedTemplate).answer 2 =
        .token { kind := .text, value := ['b'], offset := 19 } ∧
      (Cursor.start dashedTemplate).answer 3 = .ending (.unclosed .tag 22) ∧
      (Cursor.start dashedTemplate).answer 4 = .ending (.unclosed .tag 22) := by
  obtain ⟨pieces, ending, -, hunique, -, htokens, hanswers, -⟩ :=
    tokens_of_decomposition dashedTemplate
  obtain ⟨rfl, rfl⟩ := hunique _ _ (decomposition_segments dashedTemplate)
  have hsegments : segments dashedTemplate =
      ([.run ['a', ' '],
        .block { delimiter := .output, trimsBefore := true, body := [' ', 'é', ' '],
                 trimsAfter := true },
        .run [' '],
        .block { delimiter := .comment, trimsBefore := false, body := ['c'], trimsAfter := true },
        .run [' ', 'b', ' ']],
       .unclosed .tag ['-', ' ', 'y']) := by
    with_unfolding_all rfl
  rw [hsegments] at htokens
  simp only [hanswers, htokens]
  decide

end TemplateCompiler.Template
