import TemplateCompiler.Proofs.Decimal.Layout
import TemplateCompiler.Proofs.Expr.Shape
import TemplateCompiler.Proofs.Target.CodeText

/-! # Generated expressions are well typed

Whatever text is compiled, the result is one expression of the target language and has a type:
that of values, or that of truth values (`compileExpr_wellTyped`).  Nothing is put in parentheses
on the way, so this rests on the shape of what the reader of templates gives.  An operand of the
template becomes an operand of type value, which may stand beside any operator and after any
mark; a chain becomes a chain of values that compares at most once, so its comparison, if there is
one, is the last to be grouped; and what tests, negates or joins works on conversions only.
-/

namespace TemplateCompiler.Target

open Text Reading

variable {scope : Scope}

/-! ## 1. Operands -/

theorem operandText_text (value : List Char) :
    OperandText scope.env (Code.text value).print .value :=
  .call scope _ [.str] _ rfl (.one (exprText_quote _ value))

theorem operandText_int {n : Nat} (hn : n < integerLimit) :
    OperandText scope.env (Code.int n).print .value :=
  .call scope _ [.int] _ rfl (.one (exprText_int _ hn))

theorem operandText_float {x : Float} (hx : Decimal.IsUnsigned x) :
    OperandText scope.env (Code.float x).print .value :=
  .call scope _ [.float] _ rfl
    (.one (exprText_float _ (Decimal.isFloatText_writeFloat hx)))

theorem operandText_bool (value : Bool) :
    OperandText scope.env (Code.bool value).print .value :=
  .call scope _ [.truth] _ rfl (.one (exprText_bool _ value))

theorem operandText_null : OperandText scope.env Code.null.print .value :=
  operandText_path (["Value".toList, "Null".toList]) rfl
    (pathType_constructor _ (.inl rfl))

/-- A look-up among the assignments, with what is there otherwise. -/
theorem operandText_getVar (name : List Char) {otherwise : List Char} {ty : Ty}
    (h : OperandText scope.env otherwise ty) (hty : ty = .value ∨ ty = .binding) :
    OperandText scope.env
      (call "get_var" ("&__locals, ".toList ++ quote name ++ ", &".toList ++ otherwise)) .value := by
  have hlocals : OperandText scope.env "__locals".toList .locals :=
    operandText_path (["__locals".toList]) rfl (pathType_locals scope)
  have hargs : ArgumentsText scope.env ("&__locals, ".toList ++ quote name ++ ", &".toList ++ otherwise)
      [.reference .locals, .str, .reference ty] := by
    have := ArgumentsText.cons hlocals.reference
      (.cons (exprText_quote scope.env name) (.one h.reference))
    simpa using this
  rcases hty with rfl | rfl
  · exact .call scope _ _ _ rfl hargs
  · exact .call scope _ _ _ rfl hargs

/-- **A name is an operand, whatever it means.** -/
theorem operandText_resolve {n : List Char} (hn : isIdentifier n = true) :
    OperandText scope.env (scope.resolve n).print .value := by
  unfold Scope.resolve
  split
  · rename_i hbound
    exact operandText_getVar n (operandText_bindingName scope hn (by simpa using hbound)) (.inr rfl)
  split
  · rename_i hfield
    exact operandText_field scope hn (by simpa using hfield)
  · have hundefined : OperandText scope.env "Value::Undefined".toList .value :=
      operandText_path (["Value".toList, "Undefined".toList]) rfl
        (pathType_constructor _ (.inr rfl))
    have h := operandText_getVar n hundefined (.inl rfl)
    rwa [List.append_assoc] at h

/-! ## 2. What works on a conversion -/

/-- A text that is an expression of one of the two types that a whole expression can have. -/
def WholeText (env : Env) (cs : List Char) : Prop := ExprText env cs .value ∨ ExprText env cs .bool

/-- **Whatever has one of the two types can be converted to a value.** -/
theorem WholeText.convert {c : Code} (h : WholeText scope.env c.print) :
    OperandText scope.env (Code.convert c).print .value := by
  rcases h with h | h
  · exact .call scope _ [.value] _ rfl (.one h)
  · exact .call scope _ [.bool] _ rfl (.one h)

/-- The truth of a whole expression. -/
theorem WholeText.truthOf {c : Code} (h : WholeText scope.env c.print) :
    OperandText scope.env (truthOf c).print .bool :=
  .call scope _ [.reference .value] _ rfl (.one h.convert.reference)

theorem operandText_index {subject key : Code} (hs : OperandText scope.env subject.print .value)
    (hk : OperandText scope.env key.print .value) :
    OperandText scope.env (Code.index subject key).print .value := by
  have hargs := ArgumentsText.cons hs.reference (.one hk.reference)
  have h := OperandText.call scope "get_index" _ .value rfl hargs
  simpa using h

theorem operandText_prop {subject : Code} (hs : OperandText scope.env subject.print .value)
    (name : List Char) : OperandText scope.env (Code.prop subject name).print .value := by
  have hargs := ArgumentsText.cons hs.reference (.one (exprText_quote _ name))
  have h := OperandText.call scope "get_prop" _ .value rfl hargs
  simpa using h

theorem operandText_contains {container item : Code}
    (hc : OperandText scope.env container.print .value)
    (hi : OperandText scope.env item.print .value) :
    OperandText scope.env (Code.contains container item).print .bool := by
  have hargs := ArgumentsText.cons hc.reference (.one hi.reference)
  have h := OperandText.call scope "contains" _ .bool rfl hargs
  simpa using h

/-- The name of a filter holds neither of the two characters that comments are made of. -/
theorem ne_of_mem_note {filter : List Char} (hf : ∀ c ∈ filter, isIdentChar c = true) :
    ∀ c ∈ " unsupported filter: ".toList ++ filter ++ [' '], c ≠ '*' ∧ c ≠ '/' := by
  have hwords : ∀ c ∈ " unsupported filter: ".toList, c ≠ '*' ∧ c ≠ '/' :=
    forall_mem_of_all (by decide)
  intro c hc
  rw [List.mem_append, List.mem_append] at hc
  rcases hc with (hc | hc) | hc
  · exact hwords c hc
  · have hid := hf c hc
    refine ⟨?_, ?_⟩ <;>
    · rintro rfl
      exact absurd hid (by decide)
  · obtain rfl : c = ' ' := by simpa using hc
    decide

theorem print_stringify_eq_note (filter : List Char) (operand : Code) :
    (Code.stringify filter operand).print =
      '/' :: '*' :: (" unsupported filter: ".toList ++ filter ++ [' '] ++ '*' :: '/' :: ' ' ::
        call "Value::from" (call "to_string_safe" ('&' :: operand.print))) := by
  have hopen : "/* unsupported filter: ".toList = '/' :: '*' :: " unsupported filter: ".toList := by
    decide
  have hclose : " */ ".toList = [' ', '*', '/', ' '] := by decide
  simp only [Code.print_stringify, hopen, hclose, List.append_assoc, List.cons_append,
    List.nil_append]

theorem operandText_stringify {filter : List Char} (hf : ∀ c ∈ filter, isIdentChar c = true)
    {operand : Code} (ho : OperandText scope.env operand.print .value) :
    OperandText scope.env (Code.stringify filter operand).print .value := by
  have hstring : OperandText scope.env (call "to_string_safe" ('&' :: operand.print)) .string :=
    .call scope _ [.reference .value] _ rfl (.one ho.reference)
  have hvalue : OperandText scope.env
      (call "Value::from" (call "to_string_safe" ('&' :: operand.print))) .value :=
    .call scope _ [.string] _ rfl (.one hstring.exprText)
  rw [print_stringify_eq_note]
  exact hvalue.comment (ne_of_mem_note hf)

theorem operandText_negateIf {c : Code} (negated : Bool) (h : OperandText scope.env c.print .bool) :
    OperandText scope.env (negateIf negated c).print .bool := by
  cases negated with
  | false => exact h
  | true => exact h.mark .not rfl (by decide)

/-! ## 3. Chains -/

/-- The operator that a binary operator is written as. -/
def operatorOf : BinOp → Operator
  | .eq => .eq
  | .ne => .ne
  | .le => .le
  | .ge => .ge
  | .lt => .lt
  | .gt => .gt
  | .add => .add
  | .sub => .sub
  | .mul => .mul
  | .div => .div
  | .mod => .rem
  | .concat => .xor

theorem text_operatorOf (op : BinOp) : (operatorOf op).text = operatorText op := by
  cases op <;> rfl

theorem level_operatorOf (op : BinOp) : (operatorOf op).level ≤ 3 := by
  cases op <;> decide

theorem isComparison_operatorOf (op : BinOp) :
    (operatorOf op).isComparison = op.isComparison := by
  cases op <;> rfl

/-- A chain of values with one operand more. -/
theorem Chain.Values.snoc {env : Env} {compared : Bool} {c : Chain} (h : c.Values env compared)
    {op : BinOp} (hop : (compared && op.isComparison) = false) {t : Term}
    (ht : t.typeOf env = some .value) :
    (c.snoc (operatorOf op) t).Values env (compared || op.isComparison) := by
  refine ⟨h.uniform.snoc _ ht, ?_, ?_⟩
  · intro o ho
    rw [Chain.ops_snoc, List.mem_append, List.mem_singleton] at ho
    rcases ho with ho | rfl
    · exact h.level o ho
    · exact level_operatorOf op
  · rw [Chain.ops_snoc, List.countP_append, h.comparisons]
    simp only [List.countP_cons, List.countP_nil, isComparison_operatorOf]
    revert hop
    cases compared <;> cases op.isComparison <;> decide

theorem ChainText.binary {env : Env} {compared : Bool} {left right : Code} (op : BinOp)
    (hop : (compared && op.isComparison) = false)
    (hl : ChainText (Chain.Values env compared) left.print)
    (hr : OperandText env right.print .value) :
    ChainText (Chain.Values env (compared || op.isComparison)) (Code.binary left op right).print := by
  have h := (hl.snoc (operatorOf op) hr).mono fun c hc => by
    obtain ⟨d, t, hd, ht, rfl⟩ := hc
    exact hd.snoc hop ht
  simpa [text_operatorOf] using h

/-- **A chain of values is a whole expression.** -/
theorem ChainText.whole {env : Env} {compared : Bool} {cs : List Char}
    (h : ChainText (Chain.Values env compared) cs) : WholeText env cs := by
  cases compared with
  | false => exact .inl (h.mono fun _ hc => hc.group)
  | true => exact .inr (h.mono fun _ hc => hc.group)

/-- Two truth values with a logical operator between them, and more of the same before. -/
theorem ChainText.truths_snoc {env : Env} {op : Operator} {cs ds : List Char}
    (hc : ChainText (Chain.Truths env op) cs) (hd : OperandText env ds .bool) :
    ChainText (Chain.Truths env op) (cs ++ ' ' :: (op.text ++ ' ' :: ds)) := by
  refine (hc.snoc op hd).mono fun c h => ?_
  obtain ⟨d, t, hd, ht, rfl⟩ := h
  refine ⟨hd.uniform.snoc _ ht, fun o ho => ?_⟩
  rw [Chain.ops_snoc, List.mem_append, List.mem_singleton] at ho
  exact ho.elim (hd.ops o) id

theorem OperandText.truths {env : Env} {cs : List Char} (h : OperandText env cs .bool)
    (op : Operator) : ChainText (Chain.Truths env op) cs :=
  h.chainText.mono fun _ ⟨huniform, hops⟩ => ⟨huniform, by simp [hops]⟩

theorem OperandText.values {env : Env} {cs : List Char} (h : OperandText env cs .value) :
    ChainText (Chain.Values env false) cs :=
  h.chainText.mono fun _ ⟨huniform, hops⟩ => ⟨huniform, by simp [hops], by simp [hops]⟩

/-- **A chain of truth values is a whole expression.** -/
theorem ChainText.truths_whole {env : Env} {op : Operator} (hop : 3 < op.level) {cs : List Char}
    (h : ChainText (Chain.Truths env op) cs) : WholeText env cs :=
  .inr (h.mono fun _ hc => hc.group hop)

/-! ## 4. Every expression -/

/-- What the text of a lowered expression is, by the form of the expression.  A chain of one
logical operator is known as such, since more may be put behind it. -/
def HasForm (scope : Scope) (e : Expr) : Form → Prop
  | .operand => OperandText scope.env (lower scope e).print .value
  | .chain compared => ChainText (Chain.Values scope.env compared) (lower scope e).print
  | .whole =>
    WholeText scope.env (lower scope e).print ∧
      (∀ a b, e = .and a b → ChainText (Chain.Truths scope.env .and) (lower scope e).print) ∧
      (∀ a b, e = .or a b → ChainText (Chain.Truths scope.env .or) (lower scope e).print)

/-- An expression that joins nothing. -/
theorem HasForm.of_whole {e : Expr} (h : WholeText scope.env (lower scope e).print)
    (hand : ∀ a b, e ≠ .and a b) (hor : ∀ a b, e ≠ .or a b) : HasForm scope e .whole :=
  ⟨h, fun a b he => absurd he (hand a b), fun a b he => absurd he (hor a b)⟩

/-- A key that is a lone literal is put into the code as it is. -/
theorem operandText_of_isLoneLiteral {key : Expr} (hl : key.isLoneLiteral = true)
    (h : Shaped .whole key) : OperandText scope.env (lower scope key).print .value := by
  cases key with
  | text value => exact operandText_text value
  | int value plain =>
    cases h with
    | ofChain h =>
      cases h with
      | single h =>
        cases h with
        | int _ hlt => exact operandText_int hlt
  | _ => cases hl

/-- Two expressions with a logical operator between them, the left one perhaps joined already. -/
theorem truths_joined {op : Operator} {join : Expr → Expr → Expr} {code : Code → Code → Code}
    (hprint : ∀ l r, (code l r).print = l.print ++ ' ' :: (op.text ++ ' ' :: r.print))
    (hmore : ∀ a b r, lower scope (join (join a b) r) =
      code (lower scope (join a b)) (truthOf (lower scope r)))
    (hfirst : ∀ l r, (∀ a b, l ≠ join a b) →
      lower scope (join l r) = code (truthOf (lower scope l)) (truthOf (lower scope r)))
    {left right : Expr} (hl : WholeText scope.env (lower scope left).print)
    (hjoined : ∀ a b, left = join a b →
      ChainText (Chain.Truths scope.env op) (lower scope left).print)
    (hr : WholeText scope.env (lower scope right).print) :
    ChainText (Chain.Truths scope.env op) (lower scope (join left right)).print := by
  by_cases h : ∃ a b, left = join a b
  · obtain ⟨a, b, rfl⟩ := h
    rw [hmore, hprint]
    exact (hjoined a b rfl).truths_snoc hr.truthOf
  · rw [hfirst left right fun a b he => h ⟨a, b, he⟩, hprint]
    exact (hl.truthOf.truths op).truths_snoc hr.truthOf

/-- **A lowered expression has the form of the expression.** -/
theorem hasForm_of_shaped {form : Form} {e : Expr} (h : Shaped form e) : HasForm scope e form := by
  induction h with
  | text value => exact operandText_text value
  | int plain h => exact operandText_int h
  | float h => exact operandText_float h
  | bool value => exact operandText_bool value
  | null => exact operandText_null
  | name h => exact operandText_resolve h
  | group _ ih => exact ih.1.convert
  | attr n _ ih => exact operandText_prop ih n
  | place _ hi ih => exact operandText_index ih (operandText_int hi)
  | @item e key _ hkey ih ihkey =>
    change OperandText scope.env (Code.index _ _).print .value
    refine operandText_index ih ?_
    split
    · rename_i hlone
      exact operandText_of_isLoneLiteral hlone hkey
    · exact ihkey.1.convert
  | neg _ ih => exact OperandText.mark ih .minus rfl (by decide)
  | pos _ ih => exact ih
  | toJson _ ih =>
    have hwhole : WholeText scope.env _ := .inl (OperandText.exprText ih)
    exact .call scope _ [.reference .value] _ rfl
      (.one hwhole.convert.reference)
  | filter _ hn ih =>
    have hwhole : WholeText scope.env _ := .inl (OperandText.exprText ih)
    exact operandText_stringify hn hwhole.convert
  | single _ ih => exact OperandText.values ih
  | @arith compared left right op hop _ _ ihl ihr =>
    have h := ChainText.binary op (by simp [hop]) ihl ihr
    rwa [hop, Bool.or_false] at h
  | @compare left right op hop _ _ ihl ihr =>
    have h := ChainText.binary op rfl ihl ihr
    rwa [hop] at h
  | @ofChain compared e h ih =>
    refine .of_whole (ChainText.whole ih) ?_ ?_
    all_goals
      rintro a b rfl
      cases h with
      | single h => cases h
  | defined negated _ ih =>
    have h : OperandText scope.env (Code.isDefined (.convert (lower scope _))).print .bool :=
      .call scope _ [.reference .value] _ rfl
        (.one ih.1.convert.reference)
    exact .of_whole (.inr (operandText_negateIf negated h).exprText) (by simp) (by simp)
  | member negated _ _ ihi ihc =>
    have h := operandText_contains ihc.1.convert ihi.1.convert
    exact .of_whole (.inr (operandText_negateIf negated h).exprText) (by simp) (by simp)
  | not _ ih =>
    have h := OperandText.mark ih.1.truthOf .not rfl (by decide)
    exact .of_whole (.inr h.exprText) (by simp) (by simp)
  | @and left right _ _ ihl ihr =>
    have h : ChainText (Chain.Truths scope.env .and) (lower scope (.and left right)).print :=
      truths_joined (fun _ _ => by simp [Operator.text]) (fun _ _ _ => rfl)
        (fun _ right hne => lower_and_of_ne right hne) ihl.1 ihl.2.1 ihr.1
    exact ⟨h.truths_whole (by decide), fun _ _ _ => h, by simp⟩
  | @or left right _ _ ihl ihr =>
    have h : ChainText (Chain.Truths scope.env .or) (lower scope (.or left right)).print :=
      truths_joined (fun _ _ => by simp [Operator.text]) (fun _ _ _ => rfl)
        (fun _ right hne => lower_or_of_ne right hne) ihl.1 ihl.2.2 ihr.1
    exact ⟨h.truths_whole (by decide), by simp, fun _ _ _ => h⟩

/-- A text that is an expression is read as a tree with its type. -/
theorem ExprText.readTerm {env : Env} {cs : List Char} {ty : Ty} (h : ExprText env cs ty) :
    ∃ t, readTerm cs = some t ∧ t.typeOf env = some ty := by
  obtain ⟨ts, hlex, p, u, ⟨t, hgroup, ht⟩, hrun⟩ := h
  have htokens : lex cs = some ts := by
    have := hlex [] codeEnd_nil
    simpa [Gives] using this
  refine ⟨t, ?_, ht⟩
  have hstart : ReadState.start.run ts = some { mode := .after u, pending := p, stack := [] } :=
    hrun []
  simp [Target.readTerm, htokens, hstart, ReadState.finish, hgroup]

/-- **Compiled code is one well-typed expression**, of the type of values or of truth values. -/
theorem compileExpr_wellTyped (scope : Scope) (expr : List Char) (c : Code)
    (h : compileExpr scope expr = .ok c) :
    ∃ t ty, readTerm c.print = some t ∧ t.typeOf scope.env = some ty ∧ (ty = .value ∨ ty = .bool) := by
  unfold compileExpr at h
  split at h
  · rename_i e hread
    cases h
    have hform : HasForm scope e .whole := hasForm_of_shaped (Expr.shaped_of_read hread)
    rcases hform.1 with hvalue | hbool
    · obtain ⟨t, ht, hty⟩ := hvalue.readTerm
      exact ⟨t, .value, ht, hty, .inl rfl⟩
    · obtain ⟨t, ht, hty⟩ := hbool.readTerm
      exact ⟨t, .bool, ht, hty, .inr rfl⟩
  · cases h

/-- The theorem at an input with a sign, postfixes, a filter and a comparison, in a scope where a
keyword is bound. -/
theorem compileExpr_wellTyped_comparison :
    ∃ c, compileExpr ⟨["a".toList], ["type".toList]⟩
          "-a.b[0] ~ type|upper == (not x) and y in 'z'".toList = .ok c ∧
      ∃ t ty, readTerm c.print = some t ∧
        t.typeOf (Scope.env ⟨["a".toList], ["type".toList]⟩) = some ty ∧
        (ty = .value ∨ ty = .bool) := by
  have hsome : (compileExpr ⟨["a".toList], ["type".toList]⟩
      "-a.b[0] ~ type|upper == (not x) and y in 'z'".toList).toOption.isSome = true := by
    decide +kernel
  cases h : compileExpr ⟨["a".toList], ["type".toList]⟩
      "-a.b[0] ~ type|upper == (not x) and y in 'z'".toList with
  | error e =>
    rw [h] at hsome
    cases hsome
  | ok c => exact ⟨c, rfl, compileExpr_wellTyped _ _ c h⟩

end TemplateCompiler.Target
