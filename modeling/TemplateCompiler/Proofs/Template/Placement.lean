import Mathlib.Data.List.DropRight
import TemplateCompiler.Proofs.Template.Decomposition
import TemplateCompiler.Template.Token

/-! # Which token each piece gives

`tokenAt` says which token, if any, the piece at one place gives, by looking at the piece, at its
two neighbours and at the bytes before it.  The tokens of a template are those of its pieces in
their order (`tokensOf_eq_placedTokens`), so nothing is carried from one piece to the next but
what can be seen at its place.  The offsets of the tokens increase, and all lie before the end.
-/

namespace TemplateCompiler.Template

open Text

/-! ## 1. Places -/

/-- The byte offset at which the piece at a place starts. -/
def offsetAt (pieces : List Segment) (i : Nat) : Nat :=
  byteLength ((pieces.take i).map Segment.source).flatten

/-- Whether the piece is a block that ends with a dash. -/
def endsWithDash : Option Segment → Bool
  | some (.block b) => b.trimsAfter
  | _ => false

/-- Whether what follows the pieces opens with a dash. -/
def Ending.startsWithDash : Ending → Bool
  | .complete => false
  | .unclosed _ rest => opensWithDash rest

/-- Whether the piece is a block that opens with a dash; after the last piece the ending counts. -/
def startsWithDash (ending : Ending) : Option Segment → Bool
  | some (.block b) => b.trimsBefore
  | some (.run _) => false
  | none => ending.startsWithDash

/-- The piece before a place. -/
def pieceBefore? (pieces : List Segment) : Nat → Option Segment
  | 0 => none
  | i + 1 => pieces[i]?

/-- What is left of a run: it loses the blanks at those of its ends where a dash is. -/
def keptText (dashBefore dashAfter : Bool) (text : List Char) : List Char :=
  let kept := if dashBefore then text.dropWhile isBlank else text
  if dashAfter then kept.rdropWhile isBlank else kept

/-- The token of a piece at some offset.  A comment gives none, and neither does a run of which
nothing is left. -/
def tokenOf? (offset : Nat) (dashBefore dashAfter : Bool) : Segment → Option Token
  | .block b =>
    match b.delimiter with
    | .output => some { kind := .output, value := b.body, offset }
    | .tag => some { kind := .tag, value := b.body, offset }
    | .comment => none
  | .run text =>
    let value := keptText dashBefore dashAfter text
    if value = [] then none else some { kind := .text, value, offset }

/-- The token of the piece at a place. -/
def tokenAt (pieces : List Segment) (ending : Ending) (i : Nat) : Option Token :=
  pieces[i]?.bind <|
    tokenOf? (offsetAt pieces i) (endsWithDash (pieceBefore? pieces i))
      (startsWithDash ending pieces[i + 1]?)

/-- The tokens of all pieces, in their order. -/
def placedTokens (pieces : List Segment) (ending : Ending) : List Token :=
  (List.range pieces.length).filterMap (tokenAt pieces ending)

/-! ## 2. The tokens are those of the places -/

theorem trimsBefore_eq (ending : Ending) (rest : List Segment) :
    trimsBefore ending rest = startsWithDash ending rest.head? := by
  cases rest with
  | nil => cases ending <;> rfl
  | cons p rest => cases p <;> rfl

theorem trimmedRun_eq_keptText (dashBefore dashAfter : Bool) (text : List Char) :
    trimmedRun dashBefore dashAfter text = keptText dashBefore dashAfter text := rfl

/-- The tokens from one piece on, and those after it. -/
theorem tokensOf_cons (ending : Ending) (offset : Nat) (atStart : Bool) (p : Segment)
    (rest : List Segment) :
    tokensOf ending offset atStart (p :: rest) =
      (tokenOf? offset atStart (trimsBefore ending rest) p).toList ++
        tokensOf ending (offset + byteLength p.source) (endsWithDash (some p)) rest := by
  cases p with
  | run text =>
    simp only [tokensOf, tokenOf?, List.isEmpty_iff, trimmedRun_eq_keptText]
    split <;> rfl
  | block b =>
    simp only [tokensOf, tokenOf?]
    cases b.delimiter <;> rfl

theorem offsetAt_succ {pieces : List Segment} {i : Nat} {p : Segment} (h : pieces[i]? = some p) :
    offsetAt pieces (i + 1) = offsetAt pieces i + byteLength p.source := by
  rw [offsetAt, List.take_add_one, h, List.map_append, List.flatten_append, byteLength_append]
  simp [offsetAt]

theorem tokensOf_append (ending : Ending) (done rest : List Segment) :
    tokensOf ending (offsetAt (done ++ rest) done.length)
        (endsWithDash (pieceBefore? (done ++ rest) done.length)) rest =
      (List.range' done.length rest.length).filterMap (tokenAt (done ++ rest) ending) := by
  induction rest generalizing done with
  | nil => rfl
  | cons p rest ih =>
    have hmore := ih (done ++ [p])
    have hbefore : pieceBefore? (done ++ p :: rest) (done.length + 1) = some p := by
      simp [pieceBefore?]
    have htoken : tokenAt (done ++ p :: rest) ending done.length =
        tokenOf? (offsetAt (done ++ p :: rest) done.length)
          (endsWithDash (pieceBefore? (done ++ p :: rest) done.length))
          (trimsBefore ending rest) p := by
      have hnext : (done ++ p :: rest)[done.length + 1]? = rest.head? := by
        rw [List.getElem?_append_right (by omega)]
        simp [List.head?_eq_getElem?]
      simp [tokenAt, hnext, trimsBefore_eq]
    rw [List.append_assoc, List.singleton_append, List.length_append, List.length_singleton,
      hbefore, offsetAt_succ (p := p) (by simp)] at hmore
    rw [tokensOf_cons, hmore, List.length_cons, List.range'_succ, List.filterMap_cons, htoken]
    generalize tokenOf? _ _ _ p = t
    cases t <;> rfl

/-- **The tokens of the pieces are those of the places.** -/
theorem tokensOf_eq_placedTokens (ending : Ending) (pieces : List Segment) :
    tokensOf ending 0 false pieces = placedTokens pieces ending := by
  have h := tokensOf_append ending [] pieces
  rw [List.nil_append] at h
  rw [placedTokens, List.range_eq_range']
  exact h

/-! ## 3. Positions -/

/-- The offset at which a stream ends. -/
def StreamEnd.offset : StreamEnd → Nat
  | .finished offset => offset
  | .unclosed _ offset => offset

/-- Where the stream of a template ends: at its end, or behind the last piece. -/
def streamEnd (s : List Char) (pieces : List Segment) : Ending → StreamEnd
  | .complete => .finished (byteLength s)
  | .unclosed d _ => .unclosed d (offsetAt pieces pieces.length)

/-- If nothing is left over, the template ends behind the last piece as well. -/
theorem Decomposition.offset_streamEnd {s : List Char} {pieces : List Segment} {ending : Ending}
    (h : Decomposition s pieces ending) :
    (streamEnd s pieces ending).offset = offsetAt pieces pieces.length := by
  cases ending with
  | unclosed d rest => rfl
  | complete =>
    have hs := h.spells
    rw [Ending.source, List.append_nil] at hs
    rw [streamEnd, StreamEnd.offset, offsetAt, List.take_length, hs]

/-- The tokens and the end of a template, from its pieces. -/
theorem tokenize_eq {s : List Char} {pieces : List Segment} {ending : Ending}
    (h : Decomposition s pieces ending) :
    tokenize s =
      { tokens := placedTokens pieces ending, ending := streamEnd s pieces ending } := by
  rw [tokenize, h.segments_eq]
  simp only [tokensOf_eq_placedTokens]
  cases ending with
  | complete => rfl
  | unclosed d rest => simp [streamEnd, offsetAt]

theorem byteLength_pos {cs : List Char} (h : cs ≠ []) : 0 < byteLength cs := by
  obtain ⟨c, rest, rfl⟩ := List.exists_cons_of_ne_nil h
  have := c.utf8Size_pos
  simp only [byteLength_cons]
  omega

/-- No piece is empty. -/
theorem Decomposition.source_ne_nil {s : List Char} {pieces : List Segment} {ending : Ending}
    (h : Decomposition s pieces ending) : ∀ p ∈ pieces, p.source ≠ [] := by
  induction h with
  | complete => simp
  | unclosed _ => simp
  | run hne _ _ _ ih =>
    intro p hp
    rcases List.mem_cons.1 hp with rfl | hp
    · exact hne
    · exact ih p hp
  | block _ _ ih =>
    intro p hp
    rcases List.mem_cons.1 hp with rfl | hp
    · simp [Segment.source, Block.source, Delimiter.opening]
    · exact ih p hp

/-- The offsets of the pieces increase. -/
theorem offsetAt_lt {pieces : List Segment} (hne : ∀ p ∈ pieces, p.source ≠ []) {i j : Nat}
    (hij : i < j) (hj : j ≤ pieces.length) : offsetAt pieces i < offsetAt pieces j := by
  induction j with
  | zero => omega
  | succ j ih =>
    have hlt : j < pieces.length := by omega
    have hstep := offsetAt_succ (List.getElem?_eq_getElem hlt)
    have hpos := byteLength_pos (hne pieces[j] (List.getElem_mem hlt))
    rcases Nat.lt_or_ge i j with h | h
    · have := ih h (by omega)
      omega
    · obtain rfl : i = j := by omega
      omega

theorem offset_of_tokenOf? {offset : Nat} {atStart atEnd : Bool} {p : Segment} {t : Token}
    (h : tokenOf? offset atStart atEnd p = some t) : t.offset = offset := by
  cases p with
  | run text =>
    simp only [tokenOf?] at h
    split at h
    · cases h
    · cases h
      rfl
  | block b =>
    simp only [tokenOf?] at h
    split at h <;> cases h <;> rfl

/-- A token has the offset of its piece. -/
theorem offset_of_tokenAt {pieces : List Segment} {ending : Ending} {i : Nat} {t : Token}
    (h : tokenAt pieces ending i = some t) : t.offset = offsetAt pieces i := by
  obtain ⟨p, -, hp⟩ := Option.bind_eq_some_iff.1 h
  exact offset_of_tokenOf? hp

/-- **The positions of the tokens increase.** -/
theorem pairwise_placedTokens {pieces : List Segment} (hne : ∀ p ∈ pieces, p.source ≠ [])
    (ending : Ending) : (placedTokens pieces ending).Pairwise (·.offset < ·.offset) := by
  have hrange : (List.range pieces.length).Pairwise
      (fun i j => i < j ∧ j < pieces.length) := by
    refine (List.pairwise_lt_range (n := pieces.length)).imp_of_mem ?_
    intro i j _ hj hij
    exact ⟨hij, List.mem_range.1 hj⟩
  refine hrange.filterMap _ ?_
  intro i j ⟨hij, hj⟩ t ht u hu
  rw [offset_of_tokenAt ht, offset_of_tokenAt hu]
  exact offsetAt_lt hne hij (by omega)

/-- **All tokens lie before the end of the stream.** -/
theorem offset_lt_of_mem {s : List Char} {pieces : List Segment} {ending : Ending}
    (h : Decomposition s pieces ending) {t : Token} (ht : t ∈ placedTokens pieces ending) :
    t.offset < (streamEnd s pieces ending).offset := by
  obtain ⟨i, hi, htoken⟩ := List.mem_filterMap.1 ht
  rw [offset_of_tokenAt htoken, h.offset_streamEnd]
  exact offsetAt_lt h.source_ne_nil (List.mem_range.1 hi) (Nat.le_refl _)

end TemplateCompiler.Template
