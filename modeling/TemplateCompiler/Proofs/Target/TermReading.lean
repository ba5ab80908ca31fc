import TemplateCompiler.Proofs.Target.Term

/-! # Which tokens are well typed

Two things have to be known of a piece of code to know what it is in a larger one.  A piece that
is an *operand* can stand after a mark, beside an operator and as an argument (`IsOperand`); any
piece that is a whole expression can stand as an argument (`IsExpr`).  Both are about runs of the
reader, whatever is on its stack.

What a chain is depends on its operators only: a chain of values with at most one comparison, and
a chain of truth values with one logical operator, have a type (`Chain.Values.group`,
`Chain.Truths.group`).
-/

namespace TemplateCompiler.Target

/-! ## 1. Grouping -/

/-- Operands of one type. -/
def AllOf (env : Env) (ty : Ty) (rest : List (Operator × Term)) : Prop :=
  ∀ p ∈ rest, p.2.typeOf env = some ty

theorem typeOf_binary {env : Env} {op : Operator} {t u : Term}
    (ht : t.typeOf env = some op.operandType) (hu : u.typeOf env = some op.operandType) :
    (Term.binary op t u).typeOf env = some op.resultType := by
  rw [Term.typeOf, if_pos ⟨ht, hu⟩]

/-- **One pass keeps the type of the operands** and takes the operators of its level, if these
compute what they take. -/
theorem passFrom_typed {env : Env} {ty : Ty} {level : Nat} {t : Term}
    {rest : List (Operator × Term)} (ht : t.typeOf env = some ty) (hrest : AllOf env ty rest)
    (hop : ∀ p ∈ rest, p.1.level = level → p.1.operandType = ty ∧ p.1.resultType = ty) :
    (passFrom level t rest).first.typeOf env = some ty ∧
      AllOf env ty (passFrom level t rest).rest ∧
      (passFrom level t rest).rest.map (·.1) = (rest.map (·.1)).filter (·.level != level) := by
  induction rest generalizing t with
  | nil => exact ⟨ht, hrest, rfl⟩
  | cons p rest ih =>
    obtain ⟨op, u⟩ := p
    have hu : u.typeOf env = some ty := hrest (op, u) (by simp)
    have hmore : AllOf env ty rest := fun p hp => hrest p (by simp [hp])
    have hopMore := fun p (hp : p ∈ rest) => hop p (by simp [hp])
    rw [passFrom]
    by_cases hl : op.level = level
    · obtain ⟨htake, hgive⟩ := hop (op, u) (by simp) hl
      have hbinary : (Term.binary op t u).typeOf env = some ty := by
        rw [typeOf_binary (by rw [ht, htake]) (by rw [hu, htake]), hgive]
      rw [if_pos hl]
      simpa [hl] using ih hbinary hmore hopMore
    · obtain ⟨hfirst, hall, hops⟩ := ih hu hmore hopMore
      rw [if_neg hl]
      refine ⟨ht, ?_, ?_⟩
      · intro q hq
        rcases List.mem_cons.1 hq with rfl | hq
        · exact hfirst
        · exact hall q hq
      · simp [hl, hops]

/-- A chain with operands of one type and operators of some kind. -/
structure Chain.Uniform (env : Env) (ty : Ty) (c : Chain) : Prop where
  first : c.first.typeOf env = some ty
  rest : AllOf env ty c.rest

/-- The operators of a chain. -/
def Chain.ops (c : Chain) : List Operator := c.rest.map (·.1)

theorem Chain.Uniform.pass {env : Env} {ty : Ty} {c : Chain} (h : c.Uniform env ty) (level : Nat)
    (hop : ∀ op ∈ c.ops, op.level = level → op.operandType = ty ∧ op.resultType = ty) :
    (c.pass level).Uniform env ty ∧ (c.pass level).ops = c.ops.filter (·.level != level) := by
  obtain ⟨hfirst, hrest, hops⟩ := passFrom_typed h.first h.rest fun p hp =>
    hop p.1 (List.mem_map.2 ⟨p, hp, rfl⟩)
  exact ⟨⟨hfirst, hrest⟩, hops⟩

theorem Chain.Uniform.snoc {env : Env} {ty : Ty} {c : Chain} {t : Term} (h : c.Uniform env ty)
    (op : Operator) (ht : t.typeOf env = some ty) : (c.snoc op t).Uniform env ty := by
  refine ⟨h.first, fun p hp => ?_⟩
  rcases List.mem_append.1 hp with hp | hp
  · exact h.rest p hp
  · obtain rfl : p = (op, t) := by simpa using hp
    exact ht

theorem Chain.ops_snoc (c : Chain) (op : Operator) (t : Term) :
    (c.snoc op t).ops = c.ops ++ [op] := by
  simp [ops, snoc]

/-- Operators that compute values from values. -/
theorem Operator.types_of_level_lt {op : Operator} (h : op.level < 3) :
    op.operandType = .value ∧ op.resultType = .value := by
  have hle : op.level ≤ 3 := by omega
  simp [operandType, resultType, h, hle]

/-- Operators that compute truth values from truth values. -/
theorem Operator.types_of_lt_level {op : Operator} (h : 3 < op.level) :
    op.operandType = .bool ∧ op.resultType = .bool := by
  have hle : ¬op.level ≤ 3 := by omega
  have hlt : ¬op.level < 3 := by omega
  simp [operandType, resultType, hle, hlt]

theorem Operator.types_of_isComparison {op : Operator} (h : op.isComparison = true) :
    op.operandType = .value ∧ op.resultType = .bool := by
  have hl : op.level = 3 := by simpa [isComparison] using h
  simp [operandType, resultType, hl]

theorem chainsComparisons_eq_false {rest : List (Operator × Term)}
    (h : ∀ op ∈ rest.map (·.1), op.isComparison = false) : chainsComparisons rest = false := by
  induction rest with
  | nil => rfl
  | cons p rest ih =>
    cases rest with
    | nil => rfl
    | cons q rest =>
      have hp : p.1.isComparison = false := h p.1 (by simp)
      rw [chainsComparisons, hp, Bool.false_and, Bool.false_or]
      exact ih fun op hop => h op (List.mem_cons_of_mem _ hop)

/-- A chain of values.  `compared` says that one of its operators compares. -/
structure Chain.Values (env : Env) (compared : Bool) (c : Chain) : Prop where
  uniform : c.Uniform env .value
  level : ∀ op ∈ c.ops, op.level ≤ 3
  comparisons : c.ops.countP Operator.isComparison = compared.toNat

/-- A chain of truth values with one logical operator. -/
structure Chain.Truths (env : Env) (op : Operator) (c : Chain) : Prop where
  uniform : c.Uniform env .bool
  ops : ∀ o ∈ c.ops, o = op

/-- Before the comparisons are grouped, only they are left. -/
theorem Chain.Values.arithmetic {env : Env} {compared : Bool} {c : Chain}
    (h : c.Values env compared) :
    (((c.pass 0).pass 1).pass 2).Uniform env .value ∧
      (((c.pass 0).pass 1).pass 2).ops = c.ops.filter Operator.isComparison := by
  have hlt {op : Operator} {level : Nat} (hlevel : level < 3) (h : op.level = level) :=
    Operator.types_of_level_lt (show op.level < 3 by omega)
  obtain ⟨h0, hops0⟩ := h.uniform.pass 0 fun _ _ => hlt (by decide)
  obtain ⟨h1, hops1⟩ := h0.pass 1 fun _ _ => hlt (by decide)
  obtain ⟨h2, hops2⟩ := h1.pass 2 fun _ _ => hlt (by decide)
  refine ⟨h2, ?_⟩
  rw [hops2, hops1, hops0, List.filter_filter, List.filter_filter]
  refine List.filter_congr fun op hop => ?_
  have hle := h.level op hop
  rw [Operator.isComparison, Bool.eq_iff_iff]
  simp only [Bool.and_eq_true, bne_iff_ne, ne_eq, beq_iff_eq]
  omega

/-- **A chain of values with at most one comparison has a type.** -/
theorem Chain.Values.group {env : Env} {compared : Bool} {c : Chain} (h : c.Values env compared) :
    ∃ u, c.group = some u ∧ u.typeOf env = some (if compared then .bool else .value) := by
  obtain ⟨hu, hops⟩ := h.arithmetic
  have hlen : (((c.pass 0).pass 1).pass 2).ops.length = compared.toNat := by
    rw [hops, ← List.countP_eq_length_filter, h.comparisons]
  have hall : ∀ op ∈ (((c.pass 0).pass 1).pass 2).ops, op.isComparison = true := by
    rw [hops]
    intro op hop
    exact (List.mem_filter.1 hop).2
  unfold Chain.group
  generalize ((c.pass 0).pass 1).pass 2 = d at hu hlen hall ⊢
  obtain ⟨first, rest⟩ := d
  cases compared with
  | false =>
    obtain rfl : rest = [] := by simpa [ops] using hlen
    exact ⟨first, rfl, hu.first⟩
  | true =>
    obtain ⟨⟨op, t⟩, rfl⟩ : ∃ p, rest = [p] := List.length_eq_one_iff.1 (by simpa [ops] using hlen)
    have hcmp : op.isComparison = true := hall op (by simp [ops])
    obtain ⟨htake, hgive⟩ := Operator.types_of_isComparison hcmp
    have hlevel : op.level = 3 := by simpa [Operator.isComparison] using hcmp
    have hpass : (Chain.mk first [(op, t)]).pass 3 = ⟨.binary op first t, []⟩ := by
      simp [pass, passFrom, hlevel]
    refine ⟨.binary op first t, ?_, ?_⟩
    · simp only [hpass]
      rfl
    · have ht : t.typeOf env = some .value := hu.rest (op, t) (by simp)
      rw [typeOf_binary (by rw [hu.first, htake]) (by rw [ht, htake]), hgive]
      rfl

/-- **A chain of truth values with one logical operator has a type.** -/
theorem Chain.Truths.group {env : Env} {op : Operator} {c : Chain} (h : c.Truths env op)
    (hop : 3 < op.level) : ∃ u, c.group = some u ∧ u.typeOf env = some .bool := by
  have hlt {d : Chain} (hd : ∀ o ∈ d.ops, o = op) (level : Nat) :
      ∀ o ∈ d.ops, o.level = level → o.operandType = .bool ∧ o.resultType = .bool := by
    intro o ho _
    rw [hd o ho]
    exact Operator.types_of_lt_level hop
  -- every pass keeps the type, and leaves no operator that was not there before
  have hpass {d : Chain} (hd : d.Truths env op) (level : Nat) :
      (d.pass level).Truths env op ∧ (d.pass level).ops = d.ops.filter (·.level != level) := by
    obtain ⟨hu, hops⟩ := hd.uniform.pass level (hlt hd.ops level)
    refine ⟨⟨hu, fun o ho => ?_⟩, hops⟩
    rw [hops] at ho
    exact hd.ops o (List.mem_filter.1 ho).1
  obtain ⟨h0, -⟩ := hpass h 0
  obtain ⟨h1, -⟩ := hpass h0 1
  obtain ⟨h2, -⟩ := hpass h1 2
  obtain ⟨h3, -⟩ := hpass h2 3
  obtain ⟨h4, hops4⟩ := hpass h3 4
  obtain ⟨h5, hops5⟩ := hpass h4 5
  have hcompare : chainsComparisons (((c.pass 0).pass 1).pass 2).rest = false := by
    refine chainsComparisons_eq_false fun o ho => ?_
    rw [h2.ops o ho, Operator.isComparison, beq_eq_false_iff_ne]
    omega
  have hempty : ((((((c.pass 0).pass 1).pass 2).pass 3).pass 4).pass 5).rest = [] := by
    have hnil : ((((((c.pass 0).pass 1).pass 2).pass 3).pass 4).pass 5).ops = [] := by
      rw [hops5, hops4, List.filter_filter, List.filter_eq_nil_iff]
      intro o ho
      have hle : o.level ≤ 5 := by cases o <;> decide
      have hgt : 3 < o.level := by rwa [h3.ops o ho]
      simp only [Bool.and_eq_true, bne_iff_ne, ne_eq, not_and, Decidable.not_not]
      omega
    simpa [Chain.ops] using hnil
  refine ⟨_, ?_, h5.uniform.first⟩
  simp only [Chain.group, hcompare, hempty]
  rfl

/-! ## 2. Runs of the reader -/

theorem ReadState.run_nil (s : ReadState) : s.run [] = some s := rfl

theorem ReadState.run_cons (s : ReadState) (t : Token) (ts : List Token) :
    s.run (t :: ts) = (s.step t).bind (·.run ts) := rfl

theorem ReadState.run_append (s : ReadState) (ts us : List Token) :
    s.run (ts ++ us) = (s.run ts).bind (·.run us) :=
  List.foldlM_append

/-- A run over the start of some tokens can be left out. -/
theorem ReadState.run_append_of {s s' : ReadState} {ts : List Token} (h : s.run ts = some s')
    (us : List Token) : s.run (ts ++ us) = s'.run us := by
  rw [run_append, h]
  rfl

/-- Tokens that are an operand: a term with marks before it, wherever it stands. -/
def IsOperand (env : Env) (ts : List Token) (ty : Ty) : Prop :=
  ∃ (marks : List Mark) (t : Term), (applyMarks marks t).typeOf env = some ty ∧
    ∀ (p : Pending) (stack : List Frame),
      ReadState.run { mode := .operand, pending := p, stack } ts =
        some { mode := .after t, pending := { p with marks := p.marks ++ marks }, stack }

/-- Tokens that are a chain, from the start of an expression to its end. -/
def IsChain (P : Chain → Prop) (ts : List Token) : Prop :=
  ∃ (p : Pending) (t : Term), P (p.chain t) ∧
    ∀ stack : List Frame,
      ReadState.run { mode := .operand, pending := .fresh, stack } ts =
        some { mode := .after t, pending := p, stack }

/-- Tokens that are an expression of a type. -/
def IsExpr (env : Env) (ts : List Token) (ty : Ty) : Prop :=
  IsChain (fun c => ∃ u, c.group = some u ∧ u.typeOf env = some ty) ts

theorem IsChain.mono {P Q : Chain → Prop} {ts : List Token} (hPQ : ∀ c, P c → Q c)
    (h : IsChain P ts) : IsChain Q ts := by
  obtain ⟨p, t, hp, hrun⟩ := h
  exact ⟨p, t, hPQ _ hp, hrun⟩

/-- An operand on its own is a chain. -/
theorem IsOperand.isChain {env : Env} {ts : List Token} {ty : Ty} (h : IsOperand env ts ty) :
    IsChain (fun c => c.first.typeOf env = some ty ∧ c.rest = []) ts := by
  obtain ⟨marks, t, ht, hrun⟩ := h
  exact ⟨{ before := none, marks }, t, ⟨ht, rfl⟩, fun stack => hrun .fresh stack⟩

theorem IsOperand.isExpr {env : Env} {ts : List Token} {ty : Ty} (h : IsOperand env ts ty) :
    IsExpr env ts ty := by
  refine h.isChain.mono fun c ⟨hfirst, hrest⟩ => ⟨c.first, ?_, hfirst⟩
  obtain ⟨first, rest⟩ := c
  obtain rfl : rest = [] := hrest
  rfl

/-- A chain goes on with an operator and an operand. -/
theorem IsChain.snoc {env : Env} {P : Chain → Prop} {ts us : List Token} {ty : Ty}
    (h : IsChain P ts) (op : Operator) (hu : IsOperand env us ty) :
    IsChain (fun c => ∃ d t, P d ∧ t.typeOf env = some ty ∧ c = d.snoc op t)
      (ts ++ .symbol (.operator op) :: us) := by
  obtain ⟨p, t, hp, hrun⟩ := h
  obtain ⟨marks, u, hty, hrunu⟩ := hu
  refine ⟨{ before := some (p.chain t, op), marks }, u, ⟨p.chain t, applyMarks marks u, hp, hty,
    rfl⟩, fun stack => ?_⟩
  rw [ReadState.run_append_of (hrun stack)]
  exact hrunu { before := some (p.chain t, op), marks := [] } stack

/-- An operand after one token of its own. -/
theorem IsOperand.of_token {env : Env} {tok : Token} {t : Term} {ty : Ty}
    (ht : t.typeOf env = some ty) (h : operandOf? tok = some t) : IsOperand env [tok] ty := by
  refine ⟨[], t, ht, fun p stack => ?_⟩
  have hstep : ReadState.step { mode := .operand, pending := p, stack } tok =
      some { mode := .after t, pending := p, stack } := by
    cases tok with
    | symbol s => cases h
    | _ => simp [ReadState.step, ReadState.stepOperand, h]
  rw [ReadState.run_cons, hstep]
  simp [ReadState.run_nil]

/-- The token of a mark. -/
def Mark.token : Mark → Token
  | .minus => .symbol (.operator .sub)
  | .not => .symbol .exclamation
  | .reference => .symbol .ampersand

/-- **A mark before an operand makes an operand.** -/
theorem IsOperand.mark {env : Env} {ts : List Token} {ty ty' : Ty} (h : IsOperand env ts ty)
    (m : Mark) (hm : m.type ty = some ty') : IsOperand env (m.token :: ts) ty' := by
  obtain ⟨marks, t, ht, hrun⟩ := h
  refine ⟨m :: marks, t, ?_, fun p stack => ?_⟩
  · change (Term.marked m (applyMarks marks t)).typeOf env = some ty'
    rw [Term.typeOf, ht]
    exact hm
  · have hstep : ReadState.step { mode := .operand, pending := p, stack } m.token =
        some { mode := .operand, pending := { p with marks := p.marks ++ [m] }, stack } := by
      cases m <;> rfl
    rw [ReadState.run_cons, hstep]
    have h := hrun { p with marks := p.marks ++ [m] } stack
    simpa using h

/-! ## 3. Paths -/

/-- The tokens of a path. -/
def pathTokens (w : List Char) (more : List (List Char)) : List Token :=
  .word w :: more.flatMap fun s => [.symbol .pathSeparator, .word s]

theorem ReadState.run_segments {more : List (List Char)} (path : List (List Char)) (p : Pending)
    (stack : List Frame) (h : ∀ w ∈ more, isKeywordWord w = false) :
    ReadState.run { mode := .after (.path path), pending := p, stack }
        (more.flatMap fun s => [.symbol .pathSeparator, .word s]) =
      some { mode := .after (.path (path ++ more)), pending := p, stack } := by
  induction more generalizing path with
  | nil => simp [run_nil]
  | cons w more ih =>
    have hw := h w (by simp)
    have hmore := ih (path ++ [w]) fun v hv => h v (by simp [hv])
    simpa [run_cons, step, stepAfter, stepName, hw] using hmore

/-- The words `true` and `false` are keywords. -/
theorem operandOf?_word {w : List Char} (h : isKeywordWord w = false) :
    operandOf? (.word w) = some (.path [w]) := by
  have htrue : w ≠ "true".toList := by
    rintro rfl
    exact absurd h (by decide)
  have hfalse : w ≠ "false".toList := by
    rintro rfl
    exact absurd h (by decide)
  simp only [operandOf?, if_neg htrue, if_neg hfalse, h]
  rfl

theorem ReadState.run_path {w : List Char} {more : List (List Char)} (p : Pending)
    (stack : List Frame) (h : ∀ v ∈ w :: more, isKeywordWord v = false) :
    ReadState.run { mode := .operand, pending := p, stack } (pathTokens w more) =
      some { mode := .after (.path (w :: more)), pending := p, stack } := by
  have hstep : ReadState.step { mode := .operand, pending := p, stack } (.word w) =
      some { mode := .after (.path [w]), pending := p, stack } := by
    simp [step, stepOperand, operandOf?_word (h w (by simp))]
  rw [pathTokens, run_cons, hstep]
  exact run_segments [w] p stack fun v hv => h v (by simp [hv])

/-- A path on its own is an operand. -/
theorem isOperand_path {env : Env} {w : List Char} {more : List (List Char)} {ty : Ty}
    (h : ∀ v ∈ w :: more, isKeywordWord v = false) (hty : env.pathType (w :: more) = some ty) :
    IsOperand env (pathTokens w more) ty := by
  refine ⟨[], .path (w :: more), ?_, fun p stack => ?_⟩
  · rw [← hty]
    simp [applyMarks, Term.typeOf]
  · simpa using ReadState.run_path p stack h

/-! ## 4. Calls -/

/-- The tokens of arguments with commas between them. -/
def argumentTokens (first : List Token) (rest : List (List Token)) : List Token :=
  first ++ rest.flatMap (.symbol .comma :: ·)

/-- Expressions and their types, one for one. -/
inductive AreExprs (env : Env) : List (List Token) → List Ty → Prop
  | nil : AreExprs env [] []
  | cons {ts : List Token} {ty : Ty} {rest : List (List Token)} {types : List Ty}
      (h : IsExpr env ts ty) (hrest : AreExprs env rest types) :
      AreExprs env (ts :: rest) (ty :: types)

/-- **The arguments of a call are read one after another.** -/
theorem ReadState.run_arguments {env : Env} {first : List Token} {rest : List (List Token)}
    {ty : Ty} {types : List Ty} (hfirst : IsExpr env first ty) (hrest : AreExprs env rest types) :
    ∃ us : List Term, Term.typesOf env us = some (ty :: types) ∧
      ∀ (outer : Pending) (f : Term) (done : List Term) (stack : List Frame),
        ReadState.run
            { mode := .operand, pending := .fresh, stack := .arguments outer f done :: stack }
            (argumentTokens first rest ++ [.symbol .rightParen]) =
          some { mode := .after (.call f (done ++ us)), pending := outer, stack } := by
  induction hrest generalizing first ty with
  | nil =>
    obtain ⟨p, t, ⟨u, hgroup, hu⟩, hrun⟩ := hfirst
    refine ⟨[u], by simp [Term.typesOf, hu], fun outer f done stack => ?_⟩
    rw [argumentTokens, List.flatMap_nil, List.append_nil, run_append_of (hrun _)]
    simp [run_cons, step, stepAfter, close, hgroup, run_nil]
  | @cons ts ty' rest types hts _ ih =>
    obtain ⟨p, t, ⟨u, hgroup, hu⟩, hrun⟩ := hfirst
    obtain ⟨us, hus, hmore⟩ := ih hts
    refine ⟨u :: us, by simp [Term.typesOf, hu, hus], fun outer f done stack => ?_⟩
    have htext : argumentTokens first (ts :: rest) ++ [.symbol .rightParen] =
        first ++ .symbol .comma :: (argumentTokens ts rest ++ [.symbol .rightParen]) := by
      simp [argumentTokens]
    have hcomma : ReadState.step
          { mode := .after t, pending := p, stack := .arguments outer f done :: stack }
          (.symbol .comma) =
        some
          { mode := .operand, pending := .fresh
            stack := .arguments outer f (done ++ [u]) :: stack } := by
      simp [step, stepAfter, comma, hgroup]
    rw [htext, run_append_of (hrun _), run_cons, hcomma]
    simpa using hmore outer f (done ++ [u]) stack

/-- The tokens of a call. -/
def callTokens (w : List Char) (more : List (List Char)) (arguments : List Token) : List Token :=
  pathTokens w more ++ .symbol .leftParen :: (arguments ++ [.symbol .rightParen])

/-- **A call of a function with fitting arguments is an operand.** -/
theorem isOperand_call {env : Env} {w : List Char} {more : List (List Char)} {first : List Token}
    {rest : List (List Token)} {ty result : Ty} {types : List Ty}
    (h : ∀ v ∈ w :: more, isKeywordWord v = false)
    (hresult : env.callType (w :: more) (ty :: types) = some result)
    (hfirst : IsExpr env first ty) (hrest : AreExprs env rest types) :
    IsOperand env (callTokens w more (argumentTokens first rest)) result := by
  obtain ⟨us, hus, hrun⟩ := ReadState.run_arguments hfirst hrest
  refine ⟨[], .call (.path (w :: more)) us, ?_, fun p stack => ?_⟩
  · rw [← hresult]
    simp [applyMarks, Term.typeOf, hus]
  · rw [callTokens, ReadState.run_append_of (ReadState.run_path p stack h), ReadState.run_cons]
    simpa [ReadState.step, ReadState.stepAfter] using hrun p (.path (w :: more)) [] stack

end TemplateCompiler.Target
