import TemplateCompiler.Template.Node
import TemplateCompiler.Template.Tag
import TemplateCompiler.Template.Token

/-! # From tokens to nodes

Blocks are read by descent: `nodes` reads the nodes of one body up to a tag that may end it, and
leaves that tag for its caller.  Which tags may end a body depends on the block it belongs to;
see `Body.terminators`.  Any other closing tag is an error, as is the end of the template inside
a block.

The first fault in the order of the tokens is the one that is reported.  A block that is never
closed is found only when all tokens before it have been accepted.

Each call is allowed a number of tokens, and reading one token uses up one.  A call that is
allowed at least as many tokens as are left never notices.
-/

namespace TemplateCompiler.Template

open Text

/-! ## 1. Bodies -/

/-- The body that is being read. -/
inductive Body where
  /-- The whole template. -/
  | whole
  /-- After `if` or `elif`. -/
  | arm
  /-- After `else`. -/
  | otherwise
  /-- After `for`. -/
  | loop
  deriving DecidableEq, Repr

/-- The tags that may end a body.  The whole template ends only where its tokens end. -/
def Body.terminators : Body → List Keyword
  | .whole => []
  | .arm => [.elifWord, .elseWord, .endifWord]
  | .otherwise => [.endifWord]
  | .loop => [.endforWord]

/-! ## 2. Tokens in their template -/

/-- What stays the same while a template is read. -/
structure Context where
  source : List Char
  ending : StreamEnd

namespace Context

variable (ctx : Context)

/-- The position of a token. -/
def position (t : Token) : Position := Position.locate ctx.source t.offset

/-- Reads a part of a tag, and blames the tag for what is wrong with it. -/
def part (t : Token) (r : Except TagFault α) : Except Error α :=
  r.mapError fun fault => .malformedTag (trim t.value) fault (ctx.position t)

/-- An expression of a token. -/
def snippet (t : Token) (source : List Char) : Snippet := { source, position := ctx.position t }

/-- The condition of an `if` or `elif` tag. -/
def conditionOf (k : Keyword) (t : Token) : Except Error Snippet := do
  let c ← ctx.part t (condition (remainder k (trim t.value)))
  return ctx.snippet t c

/-- What the end of the tokens means inside a body. -/
def atEnd (body : Body) : Except Error (List Node × List Token) :=
  match ctx.ending with
  | .unclosed d offset => .error (.unclosed d (Position.locate ctx.source offset))
  | .finished _ =>
    match body.terminators with
    | [] => .ok ([], [])
    | ks => .error (.unexpectedEnd ks)

/-! ## 3. Descent -/

/-- The arms of a choice, from after the tag that holds `cond` to after the `endif`.  `nodes`
reads a body. -/
def arms (nodes : Body → List Token → Except Error (List Node × List Token)) :
    Nat → Snippet → List Token → Except Error (Arms × List Token)
  | 0, _, _ => (ctx.atEnd .arm).map fun (_, rest) => (.stop, rest)
  | allowed + 1, cond, ts => do
    let (body, rest) ← nodes .arm ts
    match rest with
    | [] => return (.arm cond body .stop, [])
    | t :: rest =>
      match Keyword.ofWord? (headWord t.value) with
      | some .elifWord =>
        let next ← ctx.conditionOf .elifWord t
        let (more, rest) ← arms nodes allowed next rest
        return (.arm cond body more, rest)
      | some .elseWord =>
        let (other, rest) ← nodes .otherwise rest
        return (.arm cond body (.otherwise other), rest.tail)
      | _ => return (.arm cond body .stop, rest)

/-- The nodes of a body, and the tokens from the tag that ends it. -/
def nodes : Nat → Body → List Token → Except Error (List Node × List Token)
  | allowed + 1, body, t :: ts =>
    match t.kind with
    | .text => do
      let (more, rest) ← nodes allowed body ts
      return (.text t.value :: more, rest)
    | .output =>
      if (trim t.value).isEmpty then
        .error (.malformedTag t.value .emptyOutput (ctx.position t))
      else do
        let (more, rest) ← nodes allowed body ts
        return (.output (ctx.snippet t (trim t.value)) :: more, rest)
    | .tag =>
      match Keyword.ofWord? (headWord t.value) with
      | none => .error (.unsupportedTag (headWord t.value) (trim t.value) (ctx.position t))
      | some k =>
        if k ∈ body.terminators then .ok ([], t :: ts)
        else
          match k with
          | .ifWord => do
            let cond ← ctx.conditionOf .ifWord t
            let (choice, rest) ← ctx.arms (nodes allowed) (allowed + 1) cond ts
            let (more, rest) ← nodes allowed body rest
            return (.choice choice :: more, rest)
          | .forWord => do
            let (v, items) ← ctx.part t (loopHead (remainder .forWord (trim t.value)))
            let (inner, rest) ← nodes allowed .loop ts
            let (more, rest) ← nodes allowed body rest.tail
            return (.loop v (ctx.snippet t items) inner :: more, rest)
          | .setWord => do
            let (name, value) ← ctx.part t (assignment (remainder .setWord (trim t.value)))
            let (more, rest) ← nodes allowed body ts
            return (.assign name (ctx.snippet t value) :: more, rest)
          | _ => .error (.mismatchedTag body.terminators k (ctx.position t))
  | _, body, _ => ctx.atEnd body

end Context

/-! ## 4. Templates -/

/-- The nodes of a template. -/
def parse (source : List Char) : Except Error (List Node) := do
  let stream := tokenize source
  let ctx : Context := { source, ending := stream.ending }
  let (children, _) ← ctx.nodes stream.tokens.length .whole stream.tokens
  return children

end TemplateCompiler.Template
