import TemplateCompiler.Proofs.Expr.Bracketed
import TemplateCompiler.Proofs.Target.Naming
import TemplateCompiler.Target.Renderer

/-! # What a loop's own names mean in its body

A body starts to run once in every pass, and by then the statements before it have bound the loop
variable and `loop`.  Both names are looked up among the assignments first, so what they mean there
depends on what is assigned.  `bodyStart?` runs the statements up to the start of a body, with all
earlier passes, and `LoopStart` says what is found there.

The assignment of the variable is taken away at the start of each pass, so the variable is the item
of the pass whatever was assigned before.  No statement takes away an assignment of `loop`: a
template that assigns it, outside of the loop or in an earlier pass, reads its own value
(`assigned_loop_read`).  The two names are one if the variable has the name `loop`; then the second
of the two bindings is the one that is seen, and the item is not.
-/

namespace TemplateCompiler.Target

open Text Template

/-! ## 1. Looking up a name -/

def Binding.value? : Binding → Option Value
  | .value v => some v
  | _ => none

/-- The value of a look-up: what is assigned to the name, or else the value of its fallback.  There
is none where the fallback is a name that is not bound to a value. -/
def State.lookUp? (st : State) : Code → Option Value
  | .bound name =>
    ((st.lookup? (bindingName name)).bind Binding.value?).map (st.locals.getD name)
  | .free name => some (st.locals.getD name .undefined)
  | _ => none

theorem bindingName_loopName : bindingName loopName = loopBinding := by decide

/-- No other name is bound where `loop` is. -/
theorem bindingName_ne_loopBinding {name : List Char} (h : isIdentifier name = true)
    (hne : name ≠ loopName) : bindingName name ≠ loopBinding := by
  rw [← bindingName_loopName, Ne, bindingName_eq_iff h (by decide)]
  have hreserved : ∀ w ∈ reservedNames, loopName ≠ w.toList ∧ loopName ≠ w.toList ++ ['_'] := by
    decide
  rintro (heq | ⟨w, hw, -, -, heq⟩ | ⟨w, hw, -, heq, -⟩)
  · exact hne heq
  · exact (hreserved w hw).2 heq
  · exact (hreserved w hw).1 heq

theorem compileExpr_bound {scope : Scope} {name : List Char} (hname : IsVariable name)
    (h : name ∈ scope.bound) : compileExpr scope name = .ok (.bound name) := by
  rw [compileExpr, Expr.read_name hname]
  change Except.ok (scope.resolve name) = _
  rw [Scope.resolve, if_pos (by simpa using h)]

/-! ## 2. Where a body starts -/

/-- Starts the pass at a place: the statements before the body, in a block of their own. -/
def startPass (m : Meaning) (name : List Char) (st : State) (i : Nat) : Option State :=
  execAll m [.remove name, .letElement name, .letLoop] (st.enter.bind placeName (.place i))

/-- The state in which the body of a loop starts to run, by the number of passes before. -/
def bodyStart? (m : Meaning) (name : List Char) (items : Code) (body : List Stmt) (st : State) :
    Nat → Option State
  | 0 =>
    (execAll m [.letItems (.convert items), .letShadowed name] st.enter).bind fun st =>
      startPass m name st 0
  | i + 1 =>
    (bodyStart? m name items body st i).bind fun st =>
      (execAll m body st).bind fun st => startPass m name st.leave (i + 1)

section
variable {m : Meaning} {name : List Char} {names : List (List Char)} {body : List Stmt}
  {vs : List Value} {st : State} {i : Nat} {item : Value}

theorem startPass_eq (hitems : st.items? = some vs) (hitem : vs[i]? = some item) :
    startPass m name st i = some (st.inPass name vs.length item i) := by
  rw [startPass, execAll_pass hitems hitem, execAll]

/-- **Where a body starts**: the earlier passes have run, and keep what passes keep. -/
theorem exists_bodyStart? (hbody : Steady m names body) (items : Code)
    (hitem : (st.loopItems m items)[i]? = some item) :
    ∃ before, Keeps names (st.withHidden m name items) before ∧
      (i = 0 → before = st.withHidden m name items) ∧
      ((st.loopItems m items).zipIdx.take i).foldlM
        (pass m name body (st.loopItems m items).length) (st.withHidden m name items) =
          some before ∧
      bodyStart? m name items body st i =
        some (before.inPass name (st.loopItems m items).length item i) := by
  have hhidden := items?_withHidden m name items st
  have hnone : (st.withHidden m name items).locals.get? name = none := by
    rw [get?_withHidden, if_pos rfl]
  induction i generalizing item with
  | zero =>
    refine ⟨_, keeps_refl names _, fun _ => rfl, rfl, ?_⟩
    exact startPass_eq hhidden hitem
  | succ i ih =>
    obtain ⟨previous, hprevious⟩ : ∃ previous, (st.loopItems m items)[i]? = some previous := by
      have hlt := (List.getElem?_eq_some_iff.1 hitem).1
      exact ⟨_, List.getElem?_eq_getElem (Nat.lt_of_succ_lt hlt)⟩
    obtain ⟨before, hkeeps, -, hpasses, hstart⟩ := ih hprevious
    obtain ⟨after, hrun, hafter⟩ :=
      hkeeps.pass hbody hnone (st.loopItems m items).length (previous, i)
    have hitems : after.items? = some (st.loopItems m items) := by
      rw [← hhidden, State.items?, State.items?, State.lookup?, State.lookup?, hafter.blocks]
    refine ⟨after, hafter, by simp, ?_, ?_⟩
    · rw [List.take_add_one, List.foldlM_append, hpasses, List.getElem?_zipIdx, hprevious]
      simpa using hrun
    · obtain ⟨last, hlast, rfl⟩ := Option.map_eq_some_iff.1 hrun
      rw [bodyStart?, hstart, Option.bind_some, hlast, Option.bind_some, startPass_eq hitems hitem]

/-- **The loop runs through these states**: from the last start its body runs once more, and the
variable's assignment is given back. -/
theorem exec_loopBlock_eq (hbody : Steady m names body) (items : Code)
    (hcount : (st.loopItems m items).length = i + 1) :
    (loopBlock name items body).exec m st =
      (bodyStart? m name items body st i).bind fun start =>
        (execAll m body start).map fun last =>
          (last.leave.givingBack name (st.locals.get? name)).leave := by
  obtain ⟨item, hitem⟩ : ∃ item, (st.loopItems m items)[i]? = some item :=
    ⟨_, List.getElem?_eq_getElem (by omega)⟩
  obtain ⟨before, -, -, hpasses, hstart⟩ := exists_bodyStart? hbody items hitem
  obtain ⟨last, hrun, -, hexec⟩ := exec_loopBlock hbody name items st
  have hall : (st.loopItems m items).zipIdx.take (i + 1) = (st.loopItems m items).zipIdx :=
    List.take_of_length_le (by simp [hcount])
  have hlast : pass m name body (st.loopItems m items).length before (item, i) = some last := by
    rw [passes, ← hall, List.take_add_one, List.foldlM_append, hpasses, List.getElem?_zipIdx,
      hitem] at hrun
    simpa using hrun
  obtain ⟨after, hafter, rfl⟩ := Option.map_eq_some_iff.1 hlast
  rw [hexec, hstart, Option.bind_some, hafter, Option.map_some]

/-! ## 3. What the names mean there -/

/-- What is found at the start of a body, after `i` passes of `count`.  Inside of the loop the two
names are compiled to look-ups. -/
structure LoopStart (scope : Scope) (name : List Char) (names : List (List Char)) (st : State)
    (i count : Nat) (item : Value) (start : State) : Prop where
  /-- The variable is the item of the pass. -/
  reads_item : IsVariable name → name ≠ loopName →
    ∃ code, compileExpr (scope.inLoop name) name = .ok code ∧ start.lookUp? code = some item
  /-- What is assigned to `loop` goes before what the loop knows about itself. -/
  reads_loop : ∃ code, compileExpr (scope.inLoop name) loopName = .ok code ∧
    start.lookUp? code = some (start.locals.getD loopName (LoopInfo.value ⟨i, count⟩))
  /-- In a loop over a variable of this name, nothing is assigned to `loop`. -/
  own : name = loopName → start.locals.get? loopName = none
  /-- In any other one, what was assigned before the loop still is, unless an earlier pass of the
  body has assigned another value. -/
  assigned : name ≠ loopName → i = 0 ∨ loopName ∉ names →
    start.locals.get? loopName = st.locals.get? loopName

theorem lookUp?_variable (st : State) (count : Nat) (item : Value) (i : Nat)
    (h : bindingName name ≠ loopBinding) :
    (st.inPass name count item i).lookUp? (.bound name) = some item := by
  have hfound : (st.inPass name count item i).lookup? (bindingName name) = some (.value item) := by
    simp [State.lookup?, State.inPass, List.lookup_cons, beq_false_of_ne h]
  have hnone : (st.inPass name count item i).locals.get? name = none := by
    simp [State.inPass, Locals.get?_remove]
  simp [State.lookUp?, hfound, Binding.value?, Locals.getD, hnone]

theorem lookUp?_loop (st : State) (count : Nat) (item : Value) (i : Nat) :
    (st.inPass name count item i).lookUp? (.bound loopName) =
      some ((st.inPass name count item i).locals.getD loopName (LoopInfo.value ⟨i, count⟩)) := by
  have hfound : (st.inPass name count item i).lookup? (bindingName loopName) =
      some (.value (LoopInfo.value ⟨i, count⟩)) := by
    rw [bindingName_loopName]
    simp [State.lookup?, State.inPass]
  simp [State.lookUp?, hfound, Binding.value?]

theorem Keeps.loopStart (scope : Scope) {before : State} (items : Code) (count : Nat) (item : Value)
    (h : Keeps names (st.withHidden m name items) before)
    (hfirst : i = 0 → before = st.withHidden m name items) :
    LoopStart scope name names st i count item (before.inPass name count item i) where
  reads_item hname hne := by
    have hbound : name ∈ (scope.inLoop name).bound := by simp [Scope.inLoop]
    exact ⟨_, compileExpr_bound hname hbound,
      lookUp?_variable before count item i (bindingName_ne_loopBinding hname.isIdentifier hne)⟩
  reads_loop := by
    have hbound : loopName ∈ (scope.inLoop name).bound := by simp [Scope.inLoop]
    exact ⟨_, compileExpr_bound ⟨by decide, by decide, by decide⟩ hbound,
      lookUp?_loop before count item i⟩
  own := by
    rintro rfl
    exact (Locals.get?_remove ..).trans (if_pos rfl)
  assigned hne hcases := by
    have hstart : (before.inPass name count item i).locals.get? loopName =
        before.locals.get? loopName := (Locals.get?_remove ..).trans (if_neg hne)
    have hhidden := (get?_withHidden m name items st loopName).trans (if_neg hne)
    rw [hstart, ← hhidden]
    rcases hcases with hi | hnot
    · rw [hfirst hi]
    · obtain ⟨-, new, -, hassigned, hnames⟩ := h
      rcases hassigned loopName with heq | ⟨v, hmem, -⟩
      · exact heq
      · exact absurd (hnames _ _ hmem) hnot

end

/-- **In every pass of every loop, the variable and `loop` are looked up where the body starts.**
The variable is the item.  `loop` is what the loop knows about itself, unless something is assigned
to that name: then it is what is assigned.  From the last of these places the body runs to the end
of the loop. -/
theorem loop_starts (scope : Scope) (name : List Char) (items : Snippet) (body : List Node)
    (ss : List Stmt) (h : compileNode scope (.loop name items body) = .ok ss) :
    ∃ code inner, compileSnippet scope items = .ok code ∧
      compileNodes (scope.inLoop name) body = .ok inner ∧ ss = [loopBlock name code inner] ∧
      ∀ (m : Meaning) (st : State) (i : Nat) (item : Value),
        (st.loopItems m code)[i]? = some item →
        ∃ start, bodyStart? m name code inner st i = some start ∧
          LoopStart scope name (nodesAssigned body) st i (st.loopItems m code).length item start ∧
          ((st.loopItems m code).length = i + 1 →
            (loopBlock name code inner).exec m st = (execAll m inner start).map fun last =>
              (last.leave.givingBack name (st.locals.get? name)).leave) := by
  obtain ⟨code, inner, hcode, hinner, rfl⟩ := eq_loopBlock_of_compileNode h
  refine ⟨code, inner, hcode, hinner, rfl, fun m st i item hitem => ?_⟩
  have hsteady := steady_nodes m _ body inner hinner
  obtain ⟨before, hkeeps, hfirst, -, hstart⟩ := exists_bodyStart? hsteady code hitem
  refine ⟨_, hstart, hkeeps.loopStart scope code _ item hfirst, fun hcount => ?_⟩
  rw [exec_loopBlock_eq hsteady code hcount, hstart, Option.bind_some]

/-- Integers mean themselves, and anything else is a list of null and true. -/
def pairMeaning : Meaning where
  value
    | .convert (.int n), _, _ => .int (Int64.ofNat n)
    | _, _, _ => .list [.null, .bool true]
  truth _ _ _ := true

/-- A loop over `x` that assigns `x`. -/
def assigningLoop : Node :=
  .loop ['x'] ⟨['a'], default⟩ [.assign ['x'] ⟨['1'], default⟩]

/-- The theorem at the second pass of a loop whose variable is assigned before it and in the first
pass. -/
theorem loop_starts_second :
    ∃ ss, compileNode ⟨[['a']], []⟩ assigningLoop = .ok ss ∧
      ∃ code inner start, ss = [loopBlock ['x'] code inner] ∧
        bodyStart? pairMeaning ['x'] code inner ⟨[], [(['x'], .bool false)], [[]], []⟩ 1 =
          some start ∧
        (∃ element, compileExpr ⟨[['a']], [['x'], loopName]⟩ ['x'] = .ok element ∧
          start.lookUp? element = some (.bool true)) ∧
        ((loopBlock ['x'] code inner).exec pairMeaning ⟨[], [(['x'], .bool false)], [[]], []⟩ =
          (execAll pairMeaning inner start).map fun last =>
            (last.leave.givingBack ['x'] (some (.bool false))).leave) ∧
        ∃ info, compileExpr ⟨[['a']], [['x'], loopName]⟩ loopName = .ok info ∧
          start.lookUp? info = some (LoopInfo.value ⟨1, 2⟩) := by
  have hsome : (compileNode ⟨[['a']], []⟩ assigningLoop).toOption.isSome = true := by
    decide +kernel
  obtain ⟨ss, h⟩ := eq_ok_of_isSome hsome
  obtain ⟨code, inner, hcode, -, hss, hstarts⟩ := loop_starts _ _ _ _ ss h
  have hfield : code = .field ['a'] := by
    have hknown : compileSnippet ⟨[['a']], []⟩ ⟨['a'], default⟩ = .ok (.field ['a']) :=
      eq_ok_of_toOption (by decide +kernel)
    rw [hknown] at hcode
    cases hcode
    rfl
  subst hfield
  obtain ⟨start, hrun, ⟨hitem, ⟨info, hinfo, hloop⟩, -, hassigned⟩, hend⟩ :=
    hstarts pairMeaning ⟨[], [(['x'], .bool false)], [[]], []⟩ 1 (.bool true) rfl
  have hnone : start.locals.get? loopName = none :=
    hassigned (by decide) (.inr (by decide))
  rw [Locals.getD, hnone] at hloop
  have hname : IsVariable ['x'] := ⟨by decide, by decide, by decide⟩
  exact ⟨ss, h, _, inner, start, hss, hrun, hitem hname (by decide), hend rfl, info, hinfo, hloop⟩

/-- A template that assigns `loop` before a loop that reads it. -/
def assignedLoop : List Char :=
  ("\x7b% set loop = 1 %\x7d\x7b% for x in tools %\x7d" ++
    "\x7b\x7b loop \x7d\x7d\x7b% endfor %\x7d").toList

/-- In the body of this loop the name `loop` has the value that was assigned before the loop. -/
theorem assigned_loop_read :
    ∃ first items body, parse assignedLoop = .ok [first, .loop ['x'] items body] ∧
      ∃ before code inner st start info,
        compileNode ⟨["tools".toList], []⟩ first = .ok before ∧
        compileNode ⟨["tools".toList], []⟩ (.loop ['x'] items body) =
          .ok [loopBlock ['x'] code inner] ∧
        execAll pairMeaning before ⟨[], [], [[]], []⟩ = some st ∧
        bodyStart? pairMeaning ['x'] code inner st 0 = some start ∧
        compileExpr ⟨["tools".toList], [['x'], loopName]⟩ loopName = .ok info ∧
        start.lookUp? info = some (.int 1) ∧
        start.lookUp? info ≠ some (LoopInfo.value ⟨0, 2⟩) := by
  obtain ⟨p, q, r, hparse⟩ : ∃ p q r, parse assignedLoop =
      .ok [.assign loopName ⟨['1'], p⟩,
        .loop ['x'] ⟨"tools".toList, q⟩ [.output ⟨loopName, r⟩]] :=
    ⟨_, _, _, by with_unfolding_all rfl⟩
  have hone : compileExpr ⟨["tools".toList], []⟩ ['1'] = .ok (.int 1) :=
    eq_ok_of_toOption (by decide +kernel)
  have htools : compileExpr ⟨["tools".toList], []⟩ "tools".toList =
      .ok (.field "tools".toList) :=
    eq_ok_of_toOption (by decide +kernel)
  have hinfo : compileExpr ⟨["tools".toList], [['x'], loopName]⟩ loopName =
      .ok (.bound loopName) :=
    eq_ok_of_toOption (by decide +kernel)
  have hassign : compileNode ⟨["tools".toList], []⟩ (.assign loopName ⟨['1'], p⟩) =
      .ok [.insert loopName (.convert (.int 1))] := by
    rw [compileNode, if_neg (by decide), compileSnippet, hone]
    rfl
  have hloop : compileNode ⟨["tools".toList], []⟩
      (.loop ['x'] ⟨"tools".toList, q⟩ [.output ⟨loopName, r⟩]) =
        .ok [loopBlock ['x'] (.field "tools".toList)
          [.pushValue (.convert (.bound loopName))]] := by
    have houtput : compileSnippet ⟨["tools".toList], [['x'], loopName]⟩ ⟨loopName, r⟩ =
        .ok (.bound loopName) := by
      rw [compileSnippet, hinfo]
      rfl
    rw [compileNode, compileSnippet, htools]
    simp only [compileNodes, compileNode, Scope.inLoop, List.nil_append, houtput]
    rfl
  refine ⟨_, _, _, hparse, _, _, _, _, _, .bound loopName, hassign, hloop, rfl, rfl, hinfo, rfl,
    ?_⟩
  intro hread
  cases hread

end TemplateCompiler.Target
