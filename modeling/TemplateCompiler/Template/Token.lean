import TemplateCompiler.Text.Blank
import TemplateCompiler.Text.Position
import TemplateCompiler.Template.Segment

/-! # Tokens

The tokens of a template are its non-comment blocks and its runs of text, after the dashes of
the neighbouring blocks have taken their blanks.  A run that is left empty gives no token.

A token remembers the byte offset at which its segment starts.  The blanks that a dash removes
do not move the offset of the run they are taken from.

The stream ends in one of two ways: at the end of the template, or at a block that is never
closed.  A dash on the unclosed block still trims the run before it.
-/

namespace TemplateCompiler.Template

open Text

/-! ## 1. Tokens and streams -/

/-- The kinds of token. -/
inductive TokenKind where
  | text
  | output
  | tag
  deriving DecidableEq, Repr

/-- A token: its text, without delimiters and dashes, and the byte offset of its segment. -/
structure Token where
  kind : TokenKind
  value : List Char
  offset : Nat
  deriving DecidableEq, Repr

/-- How a stream of tokens ends. -/
inductive StreamEnd where
  /-- The template ends, at this offset. -/
  | finished (offset : Nat)
  /-- A block opens at this offset and is never closed. -/
  | unclosed (delimiter : Delimiter) (offset : Nat)
  deriving DecidableEq, Repr

/-- The tokens of a template and how they end. -/
structure TokenStream where
  tokens : List Token
  ending : StreamEnd
  deriving DecidableEq, Repr

/-! ## 2. From segments to tokens -/

/-- The kind of token that a block gives; a comment gives none. -/
def Delimiter.tokenKind? : Delimiter → Option TokenKind
  | .output => some .output
  | .tag => some .tag
  | .comment => none

/-- Whether what follows a run takes the blanks at its end. -/
def trimsBefore (ending : Ending) : List Segment → Bool
  | .block b :: _ => b.trimsBefore
  | .run _ :: _ => false
  | [] =>
    match ending with
    | .complete => false
    | .unclosed _ rest => opensWithDash rest

/-- A run of text without the blanks that its neighbours take. -/
def trimmedRun (atStart atEnd : Bool) (text : List Char) : List Char :=
  let text := if atStart then trimStart text else text
  if atEnd then trimEnd text else text

/-- The tokens of the segments from byte `offset` on.  `atStart` says that the block just
before takes the blanks at the start of the run that follows. -/
def tokensOf (ending : Ending) : Nat → Bool → List Segment → List Token
  | _, _, [] => []
  | offset, atStart, .run text :: rest =>
    let value := trimmedRun atStart (trimsBefore ending rest) text
    let more := tokensOf ending (offset + byteLength text) false rest
    if value.isEmpty then more else { kind := .text, value, offset } :: more
  | offset, _, .block b :: rest =>
    let more := tokensOf ending (offset + byteLength b.source) b.trimsAfter rest
    match b.delimiter.tokenKind? with
    | some kind => { kind, value := b.body, offset } :: more
    | none => more

/-- The tokens of a template. -/
def tokenize (source : List Char) : TokenStream :=
  let (pieces, ending) := segments source
  { tokens := tokensOf ending 0 false pieces
    ending :=
      match ending with
      | .complete => .finished (byteLength source)
      | .unclosed d _ => .unclosed d (byteLength (pieces.map Segment.source).flatten) }

end TemplateCompiler.Template
