import TemplateCompiler.Proofs.Outcome
import TemplateCompiler.Proofs.Template.WellFormed
import TemplateCompiler.Target.Renderer

/-! # The first refusal decides

A template that has been read is compiled from its first node to its last, and into the nodes on
the way.  What can go wrong at one place does not depend on the places around it: not on the names
that are bound there, and not on what came before.  So the places can be listed in the order of the
template (`nodesChecks`), and compiling fails at the first of them that is refused, if there is one
(`failure?_compileNodes`).

The same list can be had from the tokens, before there are any nodes: every token brings its own
checks, and the automaton that reads the template never moves one past another
(`stateChecks_of_step`).  This is what ties an error of the compiler to the tag it comes from.

A check of an expression can be made without any scope (`failure?_compileExpr`).  So whether a file
is generated, and the error if none is, is known from the checks alone (`generate_fails_first`).
-/

namespace TemplateCompiler.Target

open Text Reading Template

/-! ## 1. Checks -/

/-- A place of a template at which compiling can fail. -/
inductive Check where
  /-- A template as a node, which is never accepted. -/
  | nested
  /-- A name that is assigned by the tag at a position. -/
  | target (name : List Char) (position : Position)
  | expr (s : Snippet)

/-- The error of a check that fails.  Only the fields of the input matter. -/
def Check.error? (fields : List (List Char)) : Check → Option Error
  | .nested => some .nestedTemplate
  | .target name p =>
    if fields.contains name then some (.unsupportedExpr name .rebindsContextField (some p)) else none
  | .expr s =>
    (failure? (Expr.read s.source)).map fun r => .unsupportedExpr r.expr r.fault (some s.position)

/-- The error of the first check that fails. -/
def firstError? (fields : List (List Char)) (checks : List Check) : Option Error :=
  checks.findSome? (Check.error? fields)

mutual

/-- The checks of a node, in the order of the template. -/
def nodeChecks : Node → List Check
  | .text _ => []
  | .output expr => [.expr expr]
  | .assign name value => [.target name value.position, .expr value]
  | .choice arms => armsChecks arms
  | .loop _ items body => .expr items :: nodesChecks body
  | .template _ => [.nested]

def nodesChecks : List Node → List Check
  | [] => []
  | n :: rest => nodeChecks n ++ nodesChecks rest

def armsChecks : Arms → List Check
  | .stop => []
  | .otherwise body => nodesChecks body
  | .arm condition body rest => .expr condition :: nodesChecks body ++ armsChecks rest

end

/-! ## 2. Compiling fails at the first check that fails -/

section
variable (fields : List (List Char))

theorem firstError?_append (checks more : List Check) :
    firstError? fields (checks ++ more) =
      (firstError? fields checks).or (firstError? fields more) :=
  List.findSome?_append

theorem firstError?_cons (c : Check) (more : List Check) :
    firstError? fields (c :: more) = (c.error? fields).or (firstError? fields more) := by
  rw [firstError?, List.findSome?_cons]
  cases c.error? fields <;> rfl

end

variable {fields : List (List Char)}

theorem failure?_compileSnippet (scope : Scope) (s : Snippet) :
    failure? (compileSnippet scope s) = (Check.expr s).error? scope.fields := by
  rw [compileSnippet, compileExpr, Check.error?]
  generalize Expr.read s.source = r
  cases r <;> rfl

-- The induction is over nodes, lists of nodes and arms at once, as in the compiler.  The scope grows
-- on the way into a loop, but its fields stay, and no check looks at more.
mutual

theorem failure?_compileNode (scope : Scope) (n : Node) :
    failure? (compileNode scope n) = firstError? scope.fields (nodeChecks n) := by
  cases n with
  | text value => rfl
  | output expr =>
    rw [compileNode, nodeChecks, firstError?_cons, ← failure?_compileSnippet]
    exact failure?_bind fun _ => rfl
  | assign name value =>
    rw [compileNode, nodeChecks, firstError?_cons, firstError?_cons, ← failure?_compileSnippet,
      Check.error?]
    split
    · rfl
    · exact failure?_bind fun _ => rfl
  | choice arms =>
    rw [compileNode, nodeChecks, ← failure?_compileArms scope arms]
    exact failure?_bind_of_none fun _ => rfl
  | loop name items body =>
    rw [compileNode, nodeChecks, firstError?_cons, ← failure?_compileSnippet]
    refine failure?_bind fun code => ?_
    have hbody := failure?_compileNodes (scope.inLoop name) body
    exact (failure?_bind_of_none fun _ => rfl).trans hbody
  | template children => rfl

/-- **Compiling fails with the error of the first check that fails**, and succeeds if there is
none. -/
theorem failure?_compileNodes (scope : Scope) (ns : List Node) :
    failure? (compileNodes scope ns) = firstError? scope.fields (nodesChecks ns) := by
  cases ns with
  | nil => rfl
  | cons n rest =>
    rw [compileNodes, nodesChecks, firstError?_append, ← failure?_compileNode scope n,
      ← failure?_compileNodes scope rest]
    exact failure?_bind fun first => failure?_bind_of_none fun _ => rfl

theorem failure?_compileArms (scope : Scope) (arms : Arms) :
    failure? (compileArms scope arms) = firstError? scope.fields (armsChecks arms) := by
  cases arms with
  | stop => rfl
  | otherwise body =>
    rw [compileArms, armsChecks, ← failure?_compileNodes scope body]
    exact failure?_bind_of_none fun _ => rfl
  | arm condition body rest =>
    rw [compileArms, armsChecks, List.cons_append, firstError?_cons, firstError?_append,
      ← failure?_compileSnippet, ← failure?_compileNodes scope body,
      ← failure?_compileArms scope rest]
    refine failure?_bind fun code => failure?_bind fun inner => ?_
    exact failure?_bind_of_none fun _ => rfl

end

/-! ## 3. The checks of tokens -/

/-- The expression in a tag, as far as the tag has the form that its keyword asks for. -/
def tagExpr? (value : List Char) : Keyword → Option (List Char)
  | .ifWord => some (afterFirstWord value)
  | .elifWord => some (afterFirstWord value)
  | .forWord => (loopForm (afterFirstWord value)).toOption.map Prod.snd
  | .setWord => (assignmentForm (afterFirstWord value)).toOption.map Prod.snd
  | _ => none

/-- The name that a tag assigns. -/
def tagTarget? (value : List Char) : Keyword → Option (List Char)
  | .setWord => (assignmentForm (afterFirstWord value)).toOption.map Prod.fst
  | _ => none

/-- The expression in a token. -/
def tokenExpr? (t : Template.Token) : Option (List Char) :=
  match t.kind with
  | .text => none
  | .output => some (stripped t.value)
  | .tag => (keyword? t.value).bind (tagExpr? t.value)

/-- The name that a token assigns. -/
def tokenTarget? (t : Template.Token) : Option (List Char) :=
  match t.kind with
  | .tag => (keyword? t.value).bind (tagTarget? t.value)
  | _ => none

/-- What a token is refused for: the name that it assigns is a field of the input, or its expression
cannot be read. -/
def tokenRefusal? (fields : List (List Char)) (t : Template.Token) : Option Refusal :=
  match (tokenTarget? t).filter fields.contains with
  | some name => some ⟨name, .rebindsContextField⟩
  | none => (tokenExpr? t).bind fun e => failure? (Expr.read e)

/-- The checks of a name and an expression at a position: the name goes first. -/
def checksAt (p : Position) (target expr : Option (List Char)) : List Check :=
  target.toList.map (.target · p) ++ expr.toList.map fun e => .expr ⟨e, p⟩

/-- The checks of a token at a position. -/
def tokenChecks (p : Position) (t : Template.Token) : List Check :=
  checksAt p (tokenTarget? t) (tokenExpr? t)

/-- A token that is refused makes its checks fail, with the error at its position. -/
theorem firstError?_tokenChecks (p : Position) (t : Template.Token) :
    firstError? fields (tokenChecks p t) =
      (tokenRefusal? fields t).map fun r => .unsupportedExpr r.expr r.fault (some p) := by
  have hexpr : firstError? fields ((tokenExpr? t).toList.map fun e => .expr ⟨e, p⟩) =
      ((tokenExpr? t).bind fun e => failure? (Expr.read e)).map
        fun r => .unsupportedExpr r.expr r.fault (some p) := by
    cases tokenExpr? t with
    | none => rfl
    | some e =>
      simp only [Option.toList_some, List.map_cons, List.map_nil, firstError?_cons, Check.error?]
      exact Option.or_none
  rw [tokenChecks, checksAt, firstError?_append, hexpr, tokenRefusal?]
  cases tokenTarget? t with
  | none => rfl
  | some name =>
    simp only [Option.toList_some, List.map_cons, List.map_nil, firstError?_cons, Check.error?,
      Option.filter_some]
    split <;> rfl

/-! ## 4. The automaton keeps the order of the checks -/

/-- The checks of arms that are finished. -/
def doneChecks (done : DoneArms) : List Check :=
  done.flatMap fun p => .expr p.1 :: nodesChecks p.2

/-- The checks before the body that is being read in a block. -/
def openChecks : OpenBlock → List Check
  | .arm outer done cond => nodesChecks outer ++ doneChecks done ++ [.expr cond]
  | .otherwise outer done => nodesChecks outer ++ doneChecks done
  | .loop outer _ items => nodesChecks outer ++ [.expr items]

/-- The checks of all that has been read. -/
def stateChecks (s : AutomatonState) : List Check :=
  s.stack.reverse.flatMap openChecks ++ nodesChecks s.nodes

theorem nodesChecks_append (ns more : List Node) :
    nodesChecks (ns ++ more) = nodesChecks ns ++ nodesChecks more := by
  induction ns with
  | nil => rfl
  | cons n ns ih => rw [List.cons_append, nodesChecks, nodesChecks, ih, List.append_assoc]

theorem nodesChecks_concat (ns : List Node) (n : Node) :
    nodesChecks (ns ++ [n]) = nodesChecks ns ++ nodeChecks n := by
  rw [nodesChecks_append, nodesChecks, nodesChecks, List.append_nil]

theorem armsChecks_armsFrom (done : DoneArms) (rest : Arms) :
    armsChecks (armsFrom done rest) = doneChecks done ++ armsChecks rest := by
  induction done with
  | nil => rfl
  | cons p done ih =>
    change armsChecks (.arm p.1 p.2 (armsFrom done rest)) = _
    rw [armsChecks, ih, doneChecks, doneChecks, List.flatMap_cons, List.append_assoc]

theorem doneChecks_concat (done : DoneArms) (cond : Snippet) (body : List Node) :
    doneChecks (done ++ [(cond, body)]) = doneChecks done ++ .expr cond :: nodesChecks body := by
  simp [doneChecks]

theorem stateChecks_add (s : AutomatonState) (n : Node) :
    stateChecks (s.add n) = stateChecks s ++ nodeChecks n := by
  rw [AutomatonState.add, stateChecks, stateChecks, nodesChecks_concat, List.append_assoc]

theorem stateChecks_cons (ns : List Node) (b : OpenBlock) (stack : List OpenBlock) :
    stateChecks { nodes := ns, stack := b :: stack } =
      stack.reverse.flatMap openChecks ++ (openChecks b ++ nodesChecks ns) := by
  simp [stateChecks]

section
variable {ctx : Context} {s s' : AutomatonState} {t : Template.Token}

/-- The checks of a tag, by its keyword. -/
theorem tokenChecks_of_keyword {k : Keyword} (hkind : t.kind = .tag)
    (hword : keyword? t.value = some k) (p : Position) :
    tokenChecks p t = checksAt p (tagTarget? t.value k) (tagExpr? t.value k) := by
  rw [tokenChecks, tokenTarget?, tokenExpr?, hkind, hword]
  rfl

/-- The checks of a tag with a condition. -/
theorem checksAt_condition {k : Keyword} {cond : Snippet} (hk : k = .ifWord ∨ k = .elifWord)
    (h : ctx.conditionIn t = .ok cond) :
    checksAt (ctx.position t) (tagTarget? t.value k) (tagExpr? t.value k) = [.expr cond] := by
  obtain ⟨rfl, -⟩ := ctx.eq_placed_of_conditionIn h
  rcases hk with rfl | rfl <;> rfl

theorem checksAt_loop {v : List Char} {items : Snippet} (h : ctx.loopIn t = .ok (v, items)) :
    checksAt (ctx.position t) (tagTarget? t.value .forWord) (tagExpr? t.value .forWord) =
      [.expr items] := by
  obtain ⟨r, hr, heq⟩ := eq_ok_of_map h
  cases heq
  rw [tagExpr?, ctx.eq_ok_of_blame hr]
  rfl

theorem checksAt_assignment {name : List Char} {value : Snippet}
    (h : ctx.assignmentIn t = .ok (name, value)) :
    checksAt (ctx.position t) (tagTarget? t.value .setWord) (tagExpr? t.value .setWord) =
      nodeChecks (.assign name value) := by
  obtain ⟨r, hr, heq⟩ := eq_ok_of_map h
  cases heq
  rw [tagTarget?, tagExpr?, ctx.eq_ok_of_blame hr]
  rfl

/-- Opening a block adds what is checked before its body. -/
theorem stateChecks_push (s : AutomatonState) (b : OpenBlock) {more : List Check}
    (h : openChecks b = nodesChecks s.nodes ++ more) :
    stateChecks { nodes := [], stack := b :: s.stack } = stateChecks s ++ more := by
  rw [stateChecks_cons, h]
  simp [stateChecks, nodesChecks]

/-- Going on in the innermost block adds what is checked between its bodies. -/
theorem stateChecks_continue (ns : List Node) (b b' : OpenBlock) (stack : List OpenBlock)
    {more : List Check} (h : openChecks b' = openChecks b ++ nodesChecks ns ++ more) :
    stateChecks { nodes := [], stack := b' :: stack } =
      stateChecks { nodes := ns, stack := b :: stack } ++ more := by
  rw [stateChecks_cons, stateChecks_cons, h]
  simp [nodesChecks]

/-- Closing a block adds nothing: its checks are those of the node that it becomes. -/
theorem stateChecks_close (ns outer : List Node) (b : OpenBlock) (stack : List OpenBlock)
    {n : Node} (h : nodesChecks outer ++ nodeChecks n = openChecks b ++ nodesChecks ns) :
    stateChecks { nodes := outer ++ [n], stack } =
      stateChecks { nodes := ns, stack := b :: stack } := by
  rw [stateChecks_cons, stateChecks, nodesChecks_concat, h]

/-- **A tag adds its checks behind those of all that has been read.** -/
theorem stateChecks_of_tagStep {k : Keyword} (h : ctx.TagStep t k s s') :
    stateChecks s' = stateChecks s ++
      checksAt (ctx.position t) (tagTarget? t.value k) (tagExpr? t.value k) := by
  cases h with
  | opensChoice hcond =>
    refine stateChecks_push s _ ?_
    rw [checksAt_condition (.inl rfl) hcond]
    simp [openChecks, doneChecks]
  | opensLoop hhead =>
    refine stateChecks_push s _ ?_
    rw [checksAt_loop hhead]
    rfl
  | assigns hset => rw [stateChecks_add, checksAt_assignment hset]
  | nextArm hnext =>
    refine stateChecks_continue _ _ _ _ ?_
    rw [checksAt_condition (.inr rfl) hnext]
    simp [openChecks, doneChecks_concat]
  | lastArm =>
    refine stateChecks_continue _ _ _ _ ?_
    simp [openChecks, doneChecks_concat, checksAt, tagTarget?, tagExpr?]
  | closesArm =>
    refine (stateChecks_close _ _ _ _ ?_).trans (List.append_nil _).symm
    simp [nodeChecks, armsChecks_armsFrom, armsChecks, openChecks, doneChecks_concat]
  | closesOtherwise =>
    refine (stateChecks_close _ _ _ _ ?_).trans (List.append_nil _).symm
    simp [nodeChecks, armsChecks_armsFrom, armsChecks, openChecks]
  | closesLoop =>
    refine (stateChecks_close _ _ _ _ ?_).trans (List.append_nil _).symm
    simp [nodeChecks, openChecks]

/-- **A token adds its checks behind those of all tokens before it.** -/
theorem stateChecks_of_step (h : ctx.step s t = .ok s') :
    stateChecks s' = stateChecks s ++ tokenChecks (ctx.position t) t := by
  unfold Context.step at h
  cases hkind : t.kind with
  | text =>
    rw [hkind] at h
    cases h
    rw [stateChecks_add]
    simp [nodeChecks, tokenChecks, checksAt, tokenTarget?, tokenExpr?, hkind]
  | output =>
    rw [hkind] at h
    simp only at h
    split at h
    · cases h
    · cases h
      rw [stateChecks_add]
      simp only [nodeChecks, tokenChecks, checksAt, tokenTarget?, tokenExpr?, hkind]
      rfl
  | tag =>
    rw [hkind] at h
    simp only at h
    split at h
    · cases h
    · rename_i k hword
      rw [tokenChecks_of_keyword hkind hword]
      exact stateChecks_of_tagStep (Context.tagStep_of_stepTag h)

theorem stateChecks_of_run {ts : List Template.Token} (h : ctx.run s ts = .ok s') :
    stateChecks s' = stateChecks s ++ ts.flatMap fun t => tokenChecks (ctx.position t) t := by
  induction ts generalizing s with
  | nil =>
    cases h
    simp
  | cons t ts ih =>
    rw [Context.run, List.foldlM_cons] at h
    obtain ⟨mid, hstep, hrun⟩ := eq_ok_of_bind h
    rw [ih hrun, stateChecks_of_step hstep, List.flatMap_cons, List.append_assoc]

end

/-- **The checks of the nodes of a template are those of its tokens, in order.** -/
theorem nodesChecks_of_parse {source : List Char} {ns : List Node} (h : parse source = .ok ns) :
    nodesChecks ns = (tokenize source).tokens.flatMap fun t =>
      tokenChecks (Position.locate source t.offset) t := by
  rw [parse_eq_resume, automaton, Context.resume_eq_ok_iff] at h
  exact stateChecks_of_run h.2

/-! ## 5. Generating a file -/

/-- The scope in which no name means anything. -/
def Scope.empty : Scope := { fields := [], bound := [] }

/-- When a check fails, and with which error.  An expression is compiled in no scope at all, and the
error, which has no position of its own, gets the one of the expression. -/
inductive Check.Fails (fields : List (List Char)) : Check → Error → Prop
  | nested : Fails fields .nested .nestedTemplate
  | target {name : List Char} {p : Position} (h : name ∈ fields) :
      Fails fields (.target name p) (.unsupportedExpr name .rebindsContextField (some p))
  | expr {s : Snippet} {source : List Char} {fault : Fault}
      (h : compileExpr .empty s.source = .error (.unsupportedExpr source fault none)) :
      Fails fields (.expr s) (.unsupportedExpr source fault (some s.position))

/-- **No scope decides whether an expression compiles, or why it does not.** -/
theorem failure?_compileExpr (scope : Scope) (expr : List Char) :
    failure? (compileExpr scope expr) =
      (failure? (Expr.read expr)).map fun r => .unsupportedExpr r.expr r.fault none := by
  rw [compileExpr]
  cases Expr.read expr <;> rfl

theorem Check.error?_eq_some_iff {c : Check} {e : Error} :
    c.error? fields = some e ↔ c.Fails fields e := by
  constructor
  · intro h
    cases c with
    | nested =>
      cases h
      exact .nested
    | target name p =>
      rw [Check.error?] at h
      split at h
      · rename_i hmem
        cases h
        exact .target (by simpa using hmem)
      · cases h
    | expr s =>
      obtain ⟨r, hr, rfl⟩ := Option.map_eq_some_iff.1 h
      have hfails : failure? (compileExpr .empty s.source) =
          some (.unsupportedExpr r.expr r.fault none) := by
        rw [failure?_compileExpr, hr]
        rfl
      exact .expr (failure?_eq_some_iff.1 hfails)
  · intro h
    cases h with
    | nested => rfl
    | target hmem => simp [Check.error?, hmem]
    | @expr s source fault hexpr =>
      have hfails := failure?_eq_some_iff.2 hexpr
      rw [failure?_compileExpr] at hfails
      obtain ⟨r, hr, he⟩ := Option.map_eq_some_iff.1 hfails
      cases he
      rw [Check.error?, hr]
      rfl

theorem Check.error?_eq_none_iff {c : Check} :
    c.error? fields = none ↔ ∀ e, ¬ c.Fails fields e := by
  simp only [Option.eq_none_iff_forall_ne_some, ne_eq, Check.error?_eq_some_iff]

/-- Compiling the nodes is all of generating that can fail. -/
theorem failure?_generate (fields : List (List Char)) (name : List Char) (nodes : List Node) :
    failure? (generate fields name nodes) = firstError? fields (nodesChecks nodes) := by
  rw [generate, ← failure?_compileNodes { fields, bound := [] } nodes]
  exact failure?_bind_of_none fun _ => rfl

/-- **A file is generated exactly if no check of the nodes fails, and otherwise the first check that
fails decides the error.**  The nodes may be any, and the name of the renderer does not matter; nor
does any scope, for it does not matter to an expression either. -/
theorem generate_fails_first (fields : List (List Char)) (name : List Char) (nodes : List Node) :
    ((∃ text, generate fields name nodes = .ok text) ↔
        ∀ c ∈ nodesChecks nodes, ∀ e, ¬ c.Fails fields e) ∧
      (∀ e, generate fields name nodes = .error e ↔
        ∃ before c after, nodesChecks nodes = before ++ c :: after ∧ c.Fails fields e ∧
          ∀ b ∈ before, ∀ e', ¬ b.Fails fields e') ∧
      ∀ scope expr, failure? (compileExpr scope expr) = failure? (compileExpr .empty expr) := by
  have hgenerate := failure?_generate fields name nodes
  refine ⟨?_, fun e => ?_, fun scope expr => ?_⟩
  · rw [← failure?_eq_none_iff, hgenerate, firstError?, List.findSome?_eq_none_iff]
    exact forall₂_congr fun c _ => Check.error?_eq_none_iff
  · rw [← failure?_eq_some_iff, hgenerate, firstError?, List.findSome?_eq_some_iff]
    simp only [Check.error?_eq_some_iff, Check.error?_eq_none_iff]
  · rw [failure?_compileExpr, failure?_compileExpr]

/-- Nodes with an expression that compiles, then one that does not, and a node that is never
accepted below it. -/
def refusedNodes : List Node :=
  [.output ⟨['a'], ⟨0, 1, 1⟩⟩,
   .choice (.arm ⟨"a ** 2".toList, ⟨7, 1, 8⟩⟩ [.template []] (.otherwise [.text ['b']]))]

/-- The theorem at these nodes: the second of their three checks decides. -/
theorem generate_fails_first_power :
    generate [['a']] ['n'] refusedNodes =
      .error (.unsupportedExpr "a ** 2".toList .exponentiation (some ⟨7, 1, 8⟩)) := by
  have hpasses : ∀ e, ¬ (Check.expr ⟨['a'], ⟨0, 1, 1⟩⟩).Fails [['a']] e :=
    Check.error?_eq_none_iff.1 (by decide +kernel)
  refine ((generate_fails_first [['a']] ['n'] refusedNodes).2.1 _).2
    ⟨[.expr ⟨['a'], ⟨0, 1, 1⟩⟩], .expr ⟨"a ** 2".toList, ⟨7, 1, 8⟩⟩, [.nested], rfl, .expr ?_, ?_⟩
  · exact failure?_eq_some_iff.1 (by decide +kernel)
  · intro b hb
    rw [List.mem_singleton.1 hb]
    exact hpasses

end TemplateCompiler.Target
