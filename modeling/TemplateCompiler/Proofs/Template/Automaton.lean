import TemplateCompiler.Proofs.Outcome
import TemplateCompiler.Proofs.Template.TagForm
import TemplateCompiler.Template.Parse

/-! # Reading blocks with a stack

The blocks of a template can be read in one pass.  The automaton keeps the blocks that are open, the
innermost first, each with the nodes that stand before it in the block around it; a token either
adds a node, opens a block, goes on to the next body of the innermost block, or closes it.

What a tag says, the automaton takes from the places of its parts (see `TagForm`), and which tags a
block goes on with it has in a table of its own.  What an accepted tag can do to the state
is said once, with one case for each keyword and block (`Context.TagStep`); what every state of the
automaton has is proved from there.

`parse_eq_automaton` says that reading by descent is the same, errors included.  The descent reads a
body and gives back the tokens from the tag that ends it; the automaton, started at the same place,
comes to the same tag with the same nodes (`Context.simulates`).  That the descent has nothing to
check when a body is over is `endsAt_of_nodes`.
-/

namespace TemplateCompiler.Template

open Text

/-! ## 1. The automaton -/

/-- The arms of a choice that are finished, each with its condition. -/
abbrev DoneArms := List (Snippet × List Node)

/-- A block that is open, with the nodes that stand before it. -/
inductive OpenBlock where
  /-- A choice before its `else`: the finished arms, and the condition of the one being read. -/
  | arm (outer : List Node) (done : DoneArms) (condition : Snippet)
  /-- A choice after its `else`. -/
  | otherwise (outer : List Node) (done : DoneArms)
  | loop (outer : List Node) (name : List Char) (items : Snippet)

/-- The body that is being read in a block. -/
def OpenBlock.body : OpenBlock → Body
  | .arm .. => .arm
  | .otherwise .. => .otherwise
  | .loop .. => .loop

theorem OpenBlock.body_ne_whole (b : OpenBlock) : b.body ≠ .whole := by
  cases b <;> nofun

/-- The body that is being read inside some blocks, the innermost first. -/
def innermost : List OpenBlock → Body
  | [] => .whole
  | b :: _ => b.body

/-- The nodes of the innermost body so far, and the open blocks. -/
structure AutomatonState where
  nodes : List Node
  stack : List OpenBlock

/-- Before the first token. -/
def AutomatonState.start : AutomatonState := { nodes := [], stack := [] }

/-- The innermost body with one node more. -/
def AutomatonState.add (s : AutomatonState) (n : Node) : AutomatonState :=
  { s with nodes := s.nodes ++ [n] }

/-- Some arms before others. -/
def armsFrom (done : DoneArms) (rest : Arms) : Arms :=
  done.foldr (fun p more => .arm p.1 p.2 more) rest

/-- The tags that close a body or go on behind it. -/
def Body.closers : Body → List Keyword
  | .whole => []
  | .arm => [.elifWord, .elseWord, .endifWord]
  | .otherwise => [.endifWord]
  | .loop => [.endforWord]

namespace Context

variable (ctx : Context)

/-- Where a token stands. -/
def placeOf (t : Token) : Position := Position.locate ctx.source t.offset

/-- An expression of a token, which has the place of its token. -/
def placed (t : Token) (expr : List Char) : Snippet := { source := expr, position := ctx.placeOf t }

/-- A fault in the form of a tag is reported with the whole tag. -/
def blame {α : Type} (t : Token) : Except TagFault α → Except Error α
  | .ok a => .ok a
  | .error fault => .error (.malformedTag (stripped t.value) fault (ctx.placeOf t))

/-- The condition of an `if` or `elif` tag. -/
def conditionIn (t : Token) : Except Error Snippet :=
  (ctx.blame t (conditionForm (afterFirstWord t.value))).map (ctx.placed t)

/-- The variable and the items of a `for` tag. -/
def loopIn (t : Token) : Except Error (List Char × Snippet) :=
  (ctx.blame t (loopForm (afterFirstWord t.value))).map fun r => (r.1, ctx.placed t r.2)

/-- The target and the value of a `set` tag. -/
def assignmentIn (t : Token) : Except Error (List Char × Snippet) :=
  (ctx.blame t (assignmentForm (afterFirstWord t.value))).map fun r => (r.1, ctx.placed t r.2)

/-- A tag that the innermost block does not take. -/
def mismatch (s : AutomatonState) (k : Keyword) (t : Token) : Except Error AutomatonState :=
  .error (.mismatchedTag (innermost s.stack).closers k (ctx.placeOf t))

/-- A tag with a keyword. -/
def stepTag (s : AutomatonState) (t : Token) : Keyword → Except Error AutomatonState
  | .ifWord => do
    let cond ← ctx.conditionIn t
    return { nodes := [], stack := .arm s.nodes [] cond :: s.stack }
  | .forWord => do
    let (v, items) ← ctx.loopIn t
    return { nodes := [], stack := .loop s.nodes v items :: s.stack }
  | .setWord => do
    let (name, value) ← ctx.assignmentIn t
    return s.add (.assign name value)
  | .elifWord =>
    match s.stack with
    | .arm outer done cond :: stack => do
      let next ← ctx.conditionIn t
      return { nodes := [], stack := .arm outer (done ++ [(cond, s.nodes)]) next :: stack }
    | _ => ctx.mismatch s .elifWord t
  | .elseWord =>
    match s.stack with
    | .arm outer done cond :: stack =>
      .ok { nodes := [], stack := .otherwise outer (done ++ [(cond, s.nodes)]) :: stack }
    | _ => ctx.mismatch s .elseWord t
  | .endifWord =>
    match s.stack with
    | .arm outer done cond :: stack =>
      .ok { nodes := outer ++ [.choice (armsFrom (done ++ [(cond, s.nodes)]) .stop)], stack }
    | .otherwise outer done :: stack =>
      .ok { nodes := outer ++ [.choice (armsFrom done (.otherwise s.nodes))], stack }
    | _ => ctx.mismatch s .endifWord t
  | .endforWord =>
    match s.stack with
    | .loop outer v items :: stack => .ok { nodes := outer ++ [.loop v items s.nodes], stack }
    | _ => ctx.mismatch s .endforWord t

/-- One token. -/
def step (s : AutomatonState) (t : Token) : Except Error AutomatonState :=
  match t.kind with
  | .text => .ok (s.add (.text t.value))
  | .output =>
    if stripped t.value = [] then .error (.malformedTag t.value .emptyOutput (ctx.placeOf t))
    else .ok (s.add (.output (ctx.placed t (stripped t.value))))
  | .tag =>
    match keyword? t.value with
    | none => .error (.unsupportedTag (firstWord t.value) (stripped t.value) (ctx.placeOf t))
    | some k => ctx.stepTag s t k

/-- The end of the tokens. -/
def finish (s : AutomatonState) : Except Error (List Node) :=
  match ctx.ending with
  | .unclosed d offset => .error (.unclosed d (Position.locate ctx.source offset))
  | .finished _ =>
    match s.stack with
    | [] => .ok s.nodes
    | b :: _ => .error (.unexpectedEnd b.body.closers)

/-- Some tokens, one after another. -/
def run (s : AutomatonState) (ts : List Token) : Except Error AutomatonState :=
  ts.foldlM ctx.step s

/-- All tokens from a state on. -/
def resume (s : AutomatonState) (ts : List Token) : Except Error (List Node) :=
  ctx.run s ts >>= ctx.finish

end Context

/-- A template while it is read. -/
def Context.of (source : List Char) : Context := { source, ending := (tokenize source).ending }

/-- The nodes of a template, in one pass. -/
def automaton (source : List Char) : Except Error (List Node) :=
  (Context.of source).resume .start (tokenize source).tokens

/-! ## 2. What one token does

A token either ends the body it stands in, or it has an effect there that does not depend on what
has been read before.  Both ways of reading follow this. -/

theorem Body.terminators_eq (body : Body) : body.terminators = body.closers := by
  cases body <;> rfl

/-- Whether a token is a tag that may end a body. -/
def Body.endedBy (body : Body) (t : Token) : Bool :=
  t.kind == .tag && (keyword? t.value).any (· ∈ body.closers)

/-- What a token does that does not end the body. -/
inductive Effect where
  | node (n : Node)
  | choice (condition : Snippet)
  | loop (name : List Char) (items : Snippet)

namespace Context

variable (ctx : Context)

/-- The effect of a token that does not end the body, or what is wrong with it. -/
def effect (body : Body) (t : Token) : Except Error Effect :=
  match t.kind with
  | .text => .ok (.node (.text t.value))
  | .output =>
    if stripped t.value = [] then .error (.malformedTag t.value .emptyOutput (ctx.placeOf t))
    else .ok (.node (.output (ctx.placed t (stripped t.value))))
  | .tag =>
    match keyword? t.value with
    | none => .error (.unsupportedTag (firstWord t.value) (stripped t.value) (ctx.placeOf t))
    | some .ifWord => (ctx.conditionIn t).map .choice
    | some .forWord => (ctx.loopIn t).map fun r => .loop r.1 r.2
    | some .setWord => (ctx.assignmentIn t).map fun r => .node (.assign r.1 r.2)
    | some k => .error (.mismatchedTag body.closers k (ctx.placeOf t))

/-- What the descent does after an effect. -/
def descend (allowed : Nat) (body : Body) (ts : List Token) :
    Effect → Except Error (List Node × List Token)
  | .node n => do
    let (more, rest) ← ctx.nodes allowed body ts
    return (n :: more, rest)
  | .choice cond => do
    let (choice, rest) ← ctx.arms (ctx.nodes allowed) (allowed + 1) cond ts
    let (more, rest) ← ctx.nodes allowed body rest
    return (.choice choice :: more, rest)
  | .loop v items => do
    let (inner, rest) ← ctx.nodes allowed .loop ts
    let (more, rest) ← ctx.nodes allowed body rest.tail
    return (.loop v items inner :: more, rest)

theorem part_eq_blame {α : Type} (t : Token) (r : Except TagFault α) :
    ctx.part t r = ctx.blame t r := by
  cases r <;> rfl

/-- Both ways of reading find the same condition in a tag. -/
theorem conditionOf_eq_conditionIn {k : Keyword} {t : Token} (h : keyword? t.value = some k) :
    ctx.conditionOf k t = ctx.conditionIn t := by
  rw [conditionOf, conditionIn, remainder_trim h, condition_eq, part_eq_blame]
  cases ctx.blame t (conditionForm (afterFirstWord t.value)) <;> rfl

/-- They find the same variable and the same items of a loop. -/
theorem part_loopHead {t : Token} (h : keyword? t.value = some .forWord) :
    (ctx.part t (loopHead (remainder .forWord (trim t.value)))).map
      (fun r => (r.1, ctx.snippet t r.2)) = ctx.loopIn t := by
  rw [loopIn, remainder_trim h, loopHead_eq_loopForm, part_eq_blame]
  rfl

/-- They find the same target and the same value of an assignment. -/
theorem part_assignment {t : Token} (h : keyword? t.value = some .setWord) :
    (ctx.part t (assignment (remainder .setWord (trim t.value)))).map
      (fun r => (r.1, ctx.snippet t r.2)) = ctx.assignmentIn t := by
  rw [assignmentIn, remainder_trim h, assignment_eq_assignmentForm, part_eq_blame]
  rfl

/-- **The descent stops at a token that ends the body, and else follows its effect.** -/
theorem nodes_cons (allowed : Nat) (body : Body) (t : Token) (ts : List Token) :
    ctx.nodes (allowed + 1) body (t :: ts) =
      if body.endedBy t then .ok ([], t :: ts)
      else ctx.effect body t >>= ctx.descend allowed body ts := by
  rw [nodes, effect, Body.endedBy, ofWord?_headWord, headWord_eq, body.terminators_eq]
  cases t.kind with
  | text => rfl
  | output =>
    simp only [show (TokenKind.output == TokenKind.tag) = false from rfl, List.isEmpty_iff,
      ← stripped_eq_trim]
    split <;> rfl
  | tag =>
    cases hword : keyword? t.value with
    | none => rfl
    | some k =>
      by_cases hk : k ∈ body.closers
      · simp [hk]
      · simp only [Option.any_some, hk]
        cases k with
        | ifWord =>
          rw [conditionOf_eq_conditionIn ctx hword]
          cases ctx.conditionIn t <;> rfl
        | forWord =>
          rw [← part_loopHead ctx hword]
          cases ctx.part t (loopHead (remainder .forWord (trim t.value))) <;> rfl
        | setWord =>
          rw [← part_assignment ctx hword]
          cases ctx.part t (assignment (remainder .setWord (trim t.value))) <;> rfl
        | _ => rfl

theorem nodes_nil (allowed : Nat) (body : Body) : ctx.nodes allowed body [] = ctx.atEnd body := by
  cases allowed <;> rfl

end Context

/-- What the automaton does after an effect. -/
def AutomatonState.after (s : AutomatonState) : Effect → AutomatonState
  | .node n => s.add n
  | .choice cond => { nodes := [], stack := .arm s.nodes [] cond :: s.stack }
  | .loop v items => { nodes := [], stack := .loop s.nodes v items :: s.stack }

namespace Context

variable (ctx : Context)

/-- What a tag does that is accepted, by its keyword and by the innermost block. -/
inductive TagStep (t : Token) : Keyword → AutomatonState → AutomatonState → Prop
  | opensChoice {s : AutomatonState} {cond : Snippet} (h : ctx.conditionIn t = .ok cond) :
      TagStep t .ifWord s { nodes := [], stack := .arm s.nodes [] cond :: s.stack }
  | opensLoop {s : AutomatonState} {v : List Char} {items : Snippet}
      (h : ctx.loopIn t = .ok (v, items)) :
      TagStep t .forWord s { nodes := [], stack := .loop s.nodes v items :: s.stack }
  | assigns {s : AutomatonState} {name : List Char} {value : Snippet}
      (h : ctx.assignmentIn t = .ok (name, value)) :
      TagStep t .setWord s (s.add (.assign name value))
  | nextArm {nodes outer : List Node} {done : DoneArms} {cond next : Snippet}
      {stack : List OpenBlock} (h : ctx.conditionIn t = .ok next) :
      TagStep t .elifWord { nodes, stack := .arm outer done cond :: stack }
        { nodes := [], stack := .arm outer (done ++ [(cond, nodes)]) next :: stack }
  | lastArm {nodes outer : List Node} {done : DoneArms} {cond : Snippet}
      {stack : List OpenBlock} :
      TagStep t .elseWord { nodes, stack := .arm outer done cond :: stack }
        { nodes := [], stack := .otherwise outer (done ++ [(cond, nodes)]) :: stack }
  | closesArm {nodes outer : List Node} {done : DoneArms} {cond : Snippet}
      {stack : List OpenBlock} :
      TagStep t .endifWord { nodes, stack := .arm outer done cond :: stack }
        { nodes := outer ++ [.choice (armsFrom (done ++ [(cond, nodes)]) .stop)], stack }
  | closesOtherwise {nodes outer : List Node} {done : DoneArms} {stack : List OpenBlock} :
      TagStep t .endifWord { nodes, stack := .otherwise outer done :: stack }
        { nodes := outer ++ [.choice (armsFrom done (.otherwise nodes))], stack }
  | closesLoop {nodes outer : List Node} {v : List Char} {items : Snippet}
      {stack : List OpenBlock} :
      TagStep t .endforWord { nodes, stack := .loop outer v items :: stack }
        { nodes := outer ++ [.loop v items nodes], stack }

variable {ctx} in
/-- **An accepted tag does one of these.**  What is proved of accepted tags is proved case by case
from here. -/
theorem tagStep_of_stepTag {s s' : AutomatonState} {t : Token} {k : Keyword}
    (h : ctx.stepTag s t k = .ok s') : ctx.TagStep t k s s' := by
  obtain ⟨nodes, stack⟩ := s
  cases k with
  | ifWord =>
    obtain ⟨cond, hcond, h⟩ := eq_ok_of_bind h
    cases h
    exact .opensChoice hcond
  | forWord =>
    obtain ⟨⟨v, items⟩, hhead, h⟩ := eq_ok_of_bind h
    cases h
    exact .opensLoop hhead
  | setWord =>
    obtain ⟨⟨name, value⟩, hset, h⟩ := eq_ok_of_bind h
    cases h
    exact .assigns hset
  | elifWord =>
    simp only [stepTag] at h
    split at h
    · obtain ⟨next, hnext, h⟩ := eq_ok_of_bind h
      cases h
      exact .nextArm hnext
    · cases h
  | elseWord =>
    simp only [stepTag] at h
    split at h
    · cases h
      exact .lastArm
    · cases h
  | endifWord =>
    simp only [stepTag] at h
    split at h
    · cases h
      exact .closesArm
    · cases h
      exact .closesOtherwise
    · cases h
  | endforWord =>
    simp only [stepTag] at h
    split at h
    · cases h
      exact .closesLoop
    · cases h

/-- A closing tag that the innermost block does not take is refused. -/
theorem stepTag_of_not_mem {s : AutomatonState} {t : Token} {k : Keyword}
    (hk : k ∉ (innermost s.stack).closers)
    (hclosing : k ∈ [Keyword.elifWord, .elseWord, .endifWord, .endforWord]) :
    ctx.stepTag s t k = ctx.mismatch s k t := by
  obtain ⟨nodes, stack⟩ := s
  cases stack with
  | nil => cases k <;> first | rfl | simp at hclosing
  | cons b rest =>
    cases b <;> cases k <;>
      first | rfl | simp [innermost, OpenBlock.body, Body.closers] at hk hclosing

/-- **The automaton, too, follows the effect of a token that does not end the body.** -/
theorem step_of_not_endedBy {s : AutomatonState} {t : Token}
    (h : (innermost s.stack).endedBy t = false) :
    ctx.step s t = (ctx.effect (innermost s.stack) t).map s.after := by
  rw [step, effect]
  rw [Body.endedBy] at h
  cases hkind : t.kind with
  | text => rfl
  | output =>
    simp only
    split <;> rfl
  | tag =>
    rw [hkind] at h
    cases hword : keyword? t.value with
    | none => rfl
    | some k =>
      rw [hword] at h
      have hk : k ∉ (innermost s.stack).closers := by simpa using h
      cases k with
      | ifWord =>
        simp only [stepTag]
        cases ctx.conditionIn t <;> rfl
      | forWord =>
        simp only [stepTag]
        cases ctx.loopIn t <;> rfl
      | setWord =>
        simp only [stepTag]
        cases ctx.assignmentIn t <;> rfl
      | _ => exact ctx.stepTag_of_not_mem hk (by simp)

theorem resume_cons (s : AutomatonState) (t : Token) (ts : List Token) :
    ctx.resume s (t :: ts) = ctx.step s t >>= fun s => ctx.resume s ts := by
  rw [resume, run, List.foldlM_cons]
  cases ctx.step s t <;> rfl

/-! ## 3. Where a body ends -/

/-- What is left after a body: nothing after the whole template, which then ends in order, and else
a tag that may end the body. -/
def EndsAt (body : Body) (rest : List Token) : Prop :=
  match body with
  | .whole => rest = [] ∧ ∃ offset, ctx.ending = .finished offset
  | _ => ∃ t more, rest = t :: more ∧ body.endedBy t = true

theorem endsAt_of_endedBy {body : Body} {t : Token} (h : body.endedBy t = true)
    (ts : List Token) : ctx.EndsAt body (t :: ts) := by
  cases body with
  | whole =>
    rw [Body.endedBy] at h
    cases hword : keyword? t.value <;> simp [hword, Body.closers] at h
  | _ => exact ⟨t, ts, rfl, h⟩

/-- A body in a block ends at a tag. -/
theorem endedBy_of_endsAt {body : Body} {rest : List Token} (hbody : body ≠ .whole)
    (h : ctx.EndsAt body rest) : ∃ t more, rest = t :: more ∧ body.endedBy t = true := by
  cases body with
  | whole => exact absurd rfl hbody
  | _ => exact h

theorem endsAt_of_atEnd {body : Body} {ns : List Node} {rest : List Token}
    (h : ctx.atEnd body = .ok (ns, rest)) : ns = [] ∧ rest = [] ∧ ctx.EndsAt body rest := by
  unfold atEnd at h
  split at h
  · cases h
  · rename_i offset hending
    cases body with
    | whole =>
      cases h
      exact ⟨rfl, rfl, rfl, offset, hending⟩
    | _ => cases h

/-- Some reader of bodies does not give back more tokens than it got. -/
def Shortens (read : Body → List Token → Except Error (List Node × List Token)) : Prop :=
  ∀ body ts ns rest, read body ts = .ok (ns, rest) → rest.length ≤ ts.length

theorem length_arms_le {read : Body → List Token → Except Error (List Node × List Token)}
    (hread : Shortens read) {n : Nat} {cond : Snippet} {ts rest : List Token} {choice : Arms}
    (h : ctx.arms read n cond ts = .ok (choice, rest)) : rest.length ≤ ts.length := by
  induction n generalizing cond ts choice with
  | zero =>
    rw [arms] at h
    obtain ⟨⟨ns, after⟩, hend, h⟩ := eq_ok_of_map h
    obtain ⟨-, rfl, -⟩ := ctx.endsAt_of_atEnd hend
    cases h
    simp
  | succ n ih =>
    rw [arms] at h
    obtain ⟨⟨body, after⟩, hbody, h⟩ := eq_ok_of_bind h
    have hle := hread _ _ _ _ hbody
    cases after with
    | nil =>
      cases h
      simp
    | cons t after =>
      simp only [List.length_cons] at hle
      dsimp only at h
      split at h
      · obtain ⟨next, -, h⟩ := eq_ok_of_bind h
        obtain ⟨⟨more, rest'⟩, hmore, h⟩ := eq_ok_of_bind h
        cases h
        have := ih hmore
        omega
      · obtain ⟨⟨other, rest'⟩, hother, h⟩ := eq_ok_of_bind h
        cases h
        have := hread _ _ _ _ hother
        simp only [List.length_tail]
        omega
      · cases h
        omega

/-- **A body that is read ends where it may**, and what is left is not longer than what there was.
-/
theorem endsAt_of_nodes {allowed : Nat} {body : Body} {ts rest : List Token} {ns : List Node}
    (h : ctx.nodes allowed body ts = .ok (ns, rest)) :
    ctx.EndsAt body rest ∧ rest.length ≤ ts.length := by
  induction allowed generalizing body ts ns rest with
  | zero =>
    obtain ⟨-, rfl, hends⟩ := ctx.endsAt_of_atEnd h
    exact ⟨hends, by simp⟩
  | succ allowed ih =>
    cases ts with
    | nil =>
      rw [nodes_nil] at h
      obtain ⟨-, rfl, hends⟩ := ctx.endsAt_of_atEnd h
      exact ⟨hends, by simp⟩
    | cons t ts =>
      rw [nodes_cons] at h
      split at h
      · rename_i hended
        cases h
        exact ⟨ctx.endsAt_of_endedBy hended ts, by simp⟩
      · -- whatever the token does, the rest of the body is read by a shorter call
        have hmore {more after : List Token} {ms : List Node}
            (hread : ctx.nodes allowed body more = .ok (ms, after)) (hle : more.length ≤ ts.length) :
            ctx.EndsAt body after ∧ after.length ≤ (t :: ts).length := by
          obtain ⟨hends, hafter⟩ := ih hread
          exact ⟨hends, by simp only [List.length_cons]; omega⟩
        obtain ⟨e, -, h⟩ := eq_ok_of_bind h
        cases e with
        | node n =>
          obtain ⟨⟨ms, after⟩, hread, h⟩ := eq_ok_of_bind h
          cases h
          exact hmore hread (Nat.le_refl _)
        | choice cond =>
          obtain ⟨⟨choice, mid⟩, harms, h⟩ := eq_ok_of_bind h
          obtain ⟨⟨ms, after⟩, hread, h⟩ := eq_ok_of_bind h
          cases h
          exact hmore hread (ctx.length_arms_le (fun _ _ _ _ hr => (ih hr).2) harms)
        | loop v items =>
          obtain ⟨⟨inner, mid⟩, hinner, h⟩ := eq_ok_of_bind h
          obtain ⟨⟨ms, after⟩, hread, h⟩ := eq_ok_of_bind h
          cases h
          have := (ih hinner).2
          exact hmore hread (by rw [List.length_tail]; omega)

/-! ## 4. The two ways of reading agree -/

/-- A token that ends a body is a tag with one of the keywords that may. -/
theorem keyword_of_endedBy {body : Body} {t : Token} (h : body.endedBy t = true) :
    ∃ k ∈ body.closers, keyword? t.value = some k ∧
      ∀ s, ctx.step s t = ctx.stepTag s t k := by
  rw [Body.endedBy, Bool.and_eq_true, beq_iff_eq] at h
  obtain ⟨hkind, hword⟩ := h
  obtain ⟨k, hk, hmem⟩ := (Option.any_eq_true _ _).1 hword
  refine ⟨k, by simpa using hmem, hk, fun s => ?_⟩
  rw [step, hkind, hk]

theorem armsFrom_append (done : DoneArms) (cond : Snippet) (body : List Node) (rest : Arms) :
    armsFrom (done ++ [(cond, body)]) rest = armsFrom done (.arm cond body rest) := by
  simp [armsFrom]

/-- The automaton, started where a body starts, comes to where the body ends, with its nodes. -/
def Simulates (allowed : Nat) : Prop :=
  ∀ (s : AutomatonState) (ts : List Token), ts.length ≤ allowed →
    ctx.resume s ts = ctx.nodes allowed (innermost s.stack) ts >>= fun r =>
      ctx.resume { s with nodes := s.nodes ++ r.1 } r.2

/-- **A body that only one tag ends**, from its first token to after that tag.  `close` says what
nodes the block is left with. -/
theorem resume_closed {allowed : Nat} (h : ctx.Simulates allowed) (b : OpenBlock)
    (close : List Node → List Node) {k : Keyword} {stack : List OpenBlock}
    (hclosers : b.body.closers = [k])
    (hclose : ∀ ns t, ctx.stepTag { nodes := ns, stack := b :: stack } t k =
      .ok { nodes := close ns, stack })
    {ts : List Token} (hlen : ts.length ≤ allowed) :
    ctx.resume { nodes := [], stack := b :: stack } ts =
      ctx.nodes allowed b.body ts >>= fun r =>
        ctx.resume { nodes := close r.1, stack } r.2.tail := by
  rw [h _ ts hlen]
  change ctx.nodes allowed b.body ts >>= _ = _
  cases hnodes : ctx.nodes allowed b.body ts with
  | error e => rfl
  | ok r =>
    obtain ⟨ns, rest⟩ := r
    obtain ⟨t, rest, rfl, hended⟩ :=
      ctx.endedBy_of_endsAt b.body_ne_whole (ctx.endsAt_of_nodes hnodes).1
    obtain ⟨k', hk, -, hstep⟩ := ctx.keyword_of_endedBy hended
    obtain rfl : k' = k := by simpa [hclosers] using hk
    change ctx.resume { nodes := ns, stack := b :: stack } (t :: rest) = _
    rw [resume_cons, hstep, hclose]
    rfl

/-- An `else` and what follows it, up to the `endif`. -/
theorem resume_otherwise {allowed : Nat} (h : ctx.Simulates allowed) (outer : List Node)
    (done : DoneArms) (stack : List OpenBlock) {ts : List Token} (hlen : ts.length ≤ allowed) :
    ctx.resume { nodes := [], stack := .otherwise outer done :: stack } ts =
      ctx.nodes allowed .otherwise ts >>= fun r =>
        ctx.resume { nodes := outer ++ [.choice (armsFrom done (.otherwise r.1))], stack }
          r.2.tail :=
  ctx.resume_closed h (.otherwise outer done)
    (fun ns => outer ++ [.choice (armsFrom done (.otherwise ns))]) rfl (fun _ _ => rfl) hlen

/-- A loop, from after its tag to after the `endfor`. -/
theorem resume_loop {allowed : Nat} (h : ctx.Simulates allowed) (outer : List Node)
    (v : List Char) (items : Snippet) (stack : List OpenBlock) {ts : List Token}
    (hlen : ts.length ≤ allowed) :
    ctx.resume { nodes := [], stack := .loop outer v items :: stack } ts =
      ctx.nodes allowed .loop ts >>= fun r =>
        ctx.resume { nodes := outer ++ [.loop v items r.1], stack } r.2.tail :=
  ctx.resume_closed h (.loop outer v items) (fun ns => outer ++ [.loop v items ns]) rfl
    (fun _ _ => rfl) hlen

/-- **The arms of a choice**, from after the tag with their condition to after the `endif`. -/
theorem resume_arms {allowed : Nat} (h : ctx.Simulates allowed) (outer : List Node)
    (stack : List OpenBlock) {n : Nat} (cond : Snippet) (done : DoneArms) (ts : List Token)
    (hn : ts.length < n) (hlen : ts.length ≤ allowed) :
    ctx.resume { nodes := [], stack := .arm outer done cond :: stack } ts =
      ctx.arms (ctx.nodes allowed) n cond ts >>= fun r =>
        ctx.resume { nodes := outer ++ [.choice (armsFrom done r.1)], stack } r.2 := by
  induction n generalizing cond done ts with
  | zero => omega
  | succ n ih =>
    rw [h _ ts hlen, arms]
    change ctx.nodes allowed .arm ts >>= _ = _
    cases hnodes : ctx.nodes allowed .arm ts with
    | error e => rfl
    | ok r =>
      obtain ⟨body, rest⟩ := r
      obtain ⟨hends, hle⟩ := ctx.endsAt_of_nodes hnodes
      obtain ⟨t, rest, rfl, hended⟩ := hends
      rw [List.length_cons] at hle
      obtain ⟨k, hk, hword, hstep⟩ := ctx.keyword_of_endedBy hended
      change ctx.resume _ (t :: rest) = _
      rw [resume_cons, hstep]
      simp only [bind, Except.bind, ofWord?_headWord, hword]
      -- the three tags that may end an arm
      simp only [Body.closers, List.mem_cons, List.not_mem_nil, or_false] at hk
      rcases hk with rfl | rfl | rfl
      · simp only [stepTag, conditionOf_eq_conditionIn ctx hword, bind, Except.bind]
        cases ctx.conditionIn t with
        | error e => rfl
        | ok next =>
          have hmore := ih next (done ++ [(cond, body)]) rest (by omega) (by omega)
          simp only [pure, Except.pure, List.nil_append] at hmore ⊢
          rw [hmore]
          cases ctx.arms (ctx.nodes allowed) n next rest with
          | error e => rfl
          | ok r => simp [bind, Except.bind, armsFrom_append]
      · have hrest : rest.length ≤ allowed := by omega
        have hother := ctx.resume_otherwise h outer (done ++ [(cond, body)]) stack hrest
        simp only [stepTag, List.nil_append]
        rw [hother]
        cases ctx.nodes allowed .otherwise rest with
        | error e => rfl
        | ok r => simp [bind, Except.bind, pure, Except.pure, armsFrom_append]
      · simp [stepTag, pure, Except.pure, armsFrom_append]

/-- At the end of the tokens both ways of reading give the same answer. -/
theorem finish_eq (s : AutomatonState) :
    ctx.finish s = ctx.atEnd (innermost s.stack) >>= fun _ => .ok s.nodes := by
  obtain ⟨ns, stack⟩ := s
  rw [finish, atEnd]
  cases ctx.ending with
  | unclosed d offset => rfl
  | finished offset =>
    cases stack with
    | nil => rfl
    | cons b rest => cases b <;> rfl

theorem resume_nil (s : AutomatonState) :
    ctx.resume s [] = ctx.atEnd (innermost s.stack) >>= fun r =>
      ctx.resume { s with nodes := s.nodes ++ r.1 } r.2 := by
  change ctx.finish s = _
  rw [finish_eq]
  cases hend : ctx.atEnd (innermost s.stack) with
  | error e => rfl
  | ok r =>
    obtain ⟨ms, rest⟩ := r
    obtain ⟨rfl, rfl, -⟩ := ctx.endsAt_of_atEnd hend
    change Except.ok s.nodes = ctx.finish { s with nodes := s.nodes ++ [] }
    rw [finish_eq, List.append_nil, hend]
    rfl

/-- After a node the two ways of reading go on with the rest of the body. -/
theorem resume_add {allowed : Nat} (h : ctx.Simulates allowed) (s : AutomatonState) (n : Node)
    {ts : List Token} (hlen : ts.length ≤ allowed) :
    ctx.resume (s.add n) ts =
      (do let (more, rest) ← ctx.nodes allowed (innermost s.stack) ts
          return (n :: more, rest)) >>= fun r =>
        ctx.resume { s with nodes := s.nodes ++ r.1 } r.2 := by
  rw [h _ ts hlen]
  change ctx.nodes allowed (innermost s.stack) ts >>= _ = _
  cases ctx.nodes allowed (innermost s.stack) ts with
  | error e => rfl
  | ok r => simp [bind, Except.bind, pure, Except.pure, AutomatonState.add]

theorem resume_after {allowed : Nat} (h : ctx.Simulates allowed) (s : AutomatonState) (e : Effect)
    {ts : List Token} (hlen : ts.length ≤ allowed) :
    ctx.resume (s.after e) ts =
      ctx.descend allowed (innermost s.stack) ts e >>= fun r =>
        ctx.resume { s with nodes := s.nodes ++ r.1 } r.2 := by
  cases e with
  | node n => exact ctx.resume_add h s n hlen
  | choice cond =>
    have harms := ctx.resume_arms h s.nodes s.stack cond [] ts (Nat.lt_succ_of_le hlen) hlen
    rw [AutomatonState.after, harms, descend]
    cases hread : ctx.arms (ctx.nodes allowed) (allowed + 1) cond ts with
    | error e => rfl
    | ok r =>
      have hle := ctx.length_arms_le (fun _ _ _ _ hr => (ctx.endsAt_of_nodes hr).2) hread
      exact ctx.resume_add h s (.choice r.1) (by omega)
  | loop v items =>
    rw [AutomatonState.after, ctx.resume_loop h s.nodes v items s.stack hlen, descend]
    cases hread : ctx.nodes allowed .loop ts with
    | error e => rfl
    | ok r =>
      have hle := (ctx.endsAt_of_nodes hread).2
      exact ctx.resume_add h s (.loop v items r.1) (by rw [List.length_tail]; omega)

/-- **The automaton reads a body as the descent does.** -/
theorem simulates (allowed : Nat) : ctx.Simulates allowed := by
  induction allowed with
  | zero =>
    intro s ts hlen
    obtain rfl : ts = [] := List.eq_nil_of_length_eq_zero (by omega)
    rw [nodes_nil]
    exact ctx.resume_nil s
  | succ allowed ih =>
    intro s ts hlen
    cases ts with
    | nil =>
      rw [nodes_nil]
      exact ctx.resume_nil s
    | cons t ts =>
      rw [List.length_cons] at hlen
      rw [nodes_cons]
      split
      · -- the tag that ends the body is left to both
        change _ = ctx.resume { s with nodes := s.nodes ++ [] } (t :: ts)
        rw [List.append_nil]
      · rename_i hended
        rw [resume_cons, ctx.step_of_not_endedBy (by simpa using hended)]
        cases ctx.effect (innermost s.stack) t with
        | error e => rfl
        | ok e => exact ctx.resume_after ih s e (by omega)

end Context

/-! ## 5. The first fault -/

namespace Context

variable (ctx : Context)

/-- A run that succeeds accepts every token; one that fails does so at the first token that is not
accepted. -/
theorem run_eq_error_iff {s : AutomatonState} {ts : List Token} {e : Error} :
    ctx.run s ts = .error e ↔ ∃ before t after s', ts = before ++ t :: after ∧
      ctx.run s before = .ok s' ∧ ctx.step s' t = .error e := by
  constructor
  · intro h
    induction ts generalizing s with
    | nil => cases h
    | cons t ts ih =>
      rw [run, List.foldlM_cons] at h
      cases hstep : ctx.step s t with
      | error e' =>
        rw [hstep] at h
        cases h
        exact ⟨[], t, ts, s, rfl, rfl, hstep⟩
      | ok s' =>
        rw [hstep] at h
        obtain ⟨before, u, after, s'', rfl, hrun, hu⟩ := ih h
        refine ⟨t :: before, u, after, s'', rfl, ?_, hu⟩
        rw [run, List.foldlM_cons, hstep]
        exact hrun
  · rintro ⟨before, t, after, s', rfl, hrun, hstep⟩
    rw [run] at hrun ⊢
    rw [List.foldlM_append, hrun]
    change ctx.step s' t >>= _ = _
    rw [hstep]
    rfl

/-- The end of the tokens is right if the template ends there and no block is open. -/
theorem finish_eq_ok_iff {s : AutomatonState} {ns : List Node} :
    ctx.finish s = .ok ns ↔
      (∃ offset, ctx.ending = .finished offset) ∧ s = { nodes := ns, stack := [] } := by
  obtain ⟨nodes, stack⟩ := s
  rw [finish]
  cases ctx.ending with
  | unclosed d offset => simp
  | finished offset => cases stack <;> simp

theorem finish_eq_error_iff {s : AutomatonState} {e : Error} :
    ctx.finish s = .error e ↔
      (∃ d offset, ctx.ending = .unclosed d offset ∧
        e = .unclosed d (Position.locate ctx.source offset)) ∨
      ∃ offset b rest, ctx.ending = .finished offset ∧ s.stack = b :: rest ∧
        e = .unexpectedEnd b.body.closers := by
  obtain ⟨nodes, stack⟩ := s
  rw [finish]
  cases ctx.ending with
  | unclosed d offset =>
    constructor
    · intro h
      cases h
      exact .inl ⟨d, offset, rfl, rfl⟩
    · rintro (⟨_, _, hending, rfl⟩ | ⟨_, _, _, hending, _⟩)
      · cases hending
        rfl
      · cases hending
  | finished offset => cases stack <;> simp [eq_comm]

theorem resume_eq_ok_iff {s : AutomatonState} {ts : List Token} {ns : List Node} :
    ctx.resume s ts = .ok ns ↔
      (∃ offset, ctx.ending = .finished offset) ∧
        ctx.run s ts = .ok { nodes := ns, stack := [] } := by
  rw [resume]
  cases ctx.run s ts with
  | error e => simp [bind, Except.bind]
  | ok s' =>
    change ctx.finish s' = .ok ns ↔ _
    rw [finish_eq_ok_iff, Except.ok.injEq]

theorem resume_eq_error_iff {s : AutomatonState} {ts : List Token} {e : Error} :
    ctx.resume s ts = .error e ↔
      ctx.run s ts = .error e ∨ ∃ s', ctx.run s ts = .ok s' ∧ ctx.finish s' = .error e := by
  rw [resume]
  cases ctx.run s ts with
  | error e' => simp [bind, Except.bind]
  | ok s' => simp [bind, Except.bind]

end Context

/-- What a closing tag is refused with, by the body it stands in. -/
def Body.expectation : Body → String
  | .whole => "a statement"
  | .arm => "elif or else or endif"
  | .otherwise => "endif"
  | .loop => "endfor"

theorem message_mismatchedTag (body : Body) (k : Keyword) (p : Position) :
    (Error.mismatchedTag body.closers k p).message =
      "Unexpected '" ++ String.ofList k.word ++ "' at " ++ p.display ++ "; expected " ++
        body.expectation := by
  cases body <;> rfl

/-! ## 6. Templates -/

theorem parse_eq_resume (source : List Char) : parse source = automaton source := by
  unfold parse automaton Context.of
  dsimp only
  generalize tokenize source = stream
  rw [Context.simulates _ stream.tokens.length .start stream.tokens (Nat.le_refl _)]
  change Context.nodes _ stream.tokens.length .whole stream.tokens >>= _ =
    Context.nodes _ stream.tokens.length .whole stream.tokens >>= _
  cases hnodes : Context.nodes { source, ending := stream.ending } stream.tokens.length .whole
      stream.tokens with
  | error e => rfl
  | ok r =>
    obtain ⟨children, rest⟩ := r
    obtain ⟨hrest, offset, hending⟩ := (Context.endsAt_of_nodes _ hnodes).1
    cases hrest
    change Except.ok children = Context.finish _ { nodes := [] ++ children, stack := [] }
    rw [Context.finish, hending]
    rfl

/-- A tag that ends a body, by its keyword. -/
theorem exists_keyword_of_endsAt {ctx : Context} {body : Body} {rest : List Token}
    (hbody : body ≠ .whole) (h : ctx.EndsAt body rest) :
    ∃ t more k, rest = t :: more ∧ t.kind = .tag ∧
      keyword? t.value = some k ∧ k ∈ body.closers := by
  obtain ⟨t, more, rfl, hended⟩ := ctx.endedBy_of_endsAt hbody h
  obtain ⟨k, hk, hword, -⟩ := ctx.keyword_of_endedBy hended
  rw [Body.endedBy, Bool.and_eq_true, beq_iff_eq] at hended
  exact ⟨t, more, k, rfl, hended.1, hword, hk⟩

/-- **Reading by descent is reading in one pass with a stack of open blocks.**  It succeeds if the
tokens end in order, every token is accepted and no block is left open, and then gives the nodes
that the automaton has.  It fails with the fault of the first token that is not accepted; if there
is none, with the block that is not closed, or else with what would go on in the innermost open
block.  A closing tag in the wrong place is refused with the tags that would end the innermost body.
When the reader of a body is done, nothing is left to check: after the whole template there is no
token, and after any other body there is a tag that may end it. -/
theorem parse_eq_automaton (source : List Char) :
    parse source = automaton source ∧
    (∀ ns, parse source = .ok ns ↔
      (∃ offset, (tokenize source).ending = .finished offset) ∧
        (Context.of source).run .start (tokenize source).tokens =
          .ok { nodes := ns, stack := [] }) ∧
    (∀ e, parse source = .error e ↔
      (∃ before t after s, (tokenize source).tokens = before ++ t :: after ∧
        (Context.of source).run .start before = .ok s ∧
        (Context.of source).step s t = .error e) ∨
      ∃ s, (Context.of source).run .start (tokenize source).tokens = .ok s ∧
        ((∃ d offset, (tokenize source).ending = .unclosed d offset ∧
            e = .unclosed d (Position.locate source offset)) ∨
          ∃ offset b rest, (tokenize source).ending = .finished offset ∧ s.stack = b :: rest ∧
            e = .unexpectedEnd b.body.closers)) ∧
    (∀ (body : Body) (k : Keyword) (p : Position),
      (Error.mismatchedTag body.closers k p).message =
        "Unexpected '" ++ String.ofList k.word ++ "' at " ++ p.display ++ "; expected " ++
          body.expectation) ∧
    ∀ allowed body ts ns rest, (Context.of source).nodes allowed body ts = .ok (ns, rest) →
      (body = .whole → rest = []) ∧
        (body ≠ .whole → ∃ t more k, rest = t :: more ∧ t.kind = .tag ∧
          keyword? t.value = some k ∧ k ∈ body.closers) := by
  refine ⟨parse_eq_resume source, fun ns => ?_, fun e => ?_, message_mismatchedTag, ?_⟩
  · rw [parse_eq_resume, automaton, Context.resume_eq_ok_iff]
    rfl
  · rw [parse_eq_resume, automaton, Context.resume_eq_error_iff, Context.run_eq_error_iff]
    simp only [Context.finish_eq_error_iff]
    rfl
  · intro allowed body ts ns rest h
    have hends := ((Context.of source).endsAt_of_nodes h).1
    refine ⟨?_, fun hbody => exists_keyword_of_endsAt hbody hends⟩
    rintro rfl
    exact hends.1

/-- A choice whose `else` is followed by some other tag. -/
def choiceWith (last : List Char) : List Char :=
  "\x7b% if a %\x7db\x7b%else%\x7d".toList ++ "\x7b\x7b c \x7d\x7d\x7b% ".toList ++ last ++
    " %\x7d".toList

/-- The tokens before the last one. -/
def choiceTokens : List Token :=
  [⟨.tag, " if a ".toList, 0⟩, ⟨.text, ['b'], 10⟩, ⟨.tag, "else".toList, 11⟩,
   ⟨.output, " c ".toList, 19⟩]

theorem tokenize_choiceWith_endif :
    tokenize (choiceWith "endif".toList) =
      { tokens := choiceTokens ++ [⟨.tag, " endif ".toList, 26⟩], ending := .finished 37 } := by
  with_unfolding_all rfl

theorem tokenize_choiceWith_elif :
    tokenize (choiceWith "elif d".toList) =
      { tokens := choiceTokens ++ [⟨.tag, " elif d ".toList, 26⟩], ending := .finished 38 } := by
  with_unfolding_all rfl

/-- The theorem at two choices: one is closed, and in the other an `elif` comes after the `else`. -/
theorem parse_eq_automaton_else :
    parse (choiceWith "endif".toList) =
        .ok [.choice (.arm ⟨['a'], ⟨0, 1, 1⟩⟩ [.text ['b']]
          (.otherwise [.output ⟨['c'], ⟨19, 1, 20⟩⟩]))] ∧
      parse (choiceWith "elif d".toList) =
        .error (.mismatchedTag [.endifWord] .elifWord ⟨26, 1, 27⟩) := by
  constructor
  · refine ((parse_eq_automaton _).2.1 _).2 ⟨⟨37, ?_⟩, ?_⟩
    · rw [tokenize_choiceWith_endif]
    · rw [tokenize_choiceWith_endif]
      rfl
  · -- the choice that is open before the `elif`
    let s : AutomatonState :=
      { nodes := [.output ⟨['c'], ⟨19, 1, 20⟩⟩]
        stack := [.otherwise [] [(⟨['a'], ⟨0, 1, 1⟩⟩, [.text ['b']])]] }
    refine ((parse_eq_automaton _).2.2.1 _).2
      (.inl ⟨choiceTokens, ⟨.tag, " elif d ".toList, 26⟩, [], s, ?_, rfl, rfl⟩)
    rw [tokenize_choiceWith_elif]

end TemplateCompiler.Template
