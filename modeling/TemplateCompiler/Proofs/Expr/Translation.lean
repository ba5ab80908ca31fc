import TemplateCompiler.Proofs.Expr.PhraseRead
import TemplateCompiler.Proofs.Target.Print

/-! # Compiling a phrase

What is generated for a printed phrase is said by `Phrase.code`, construct by construct and without
lowering or its printer.  Here the two are shown to agree (`Phrase.print_lower`), so that compiling
a printed phrase gives the text of its constructs (`Target.compileExpr_print`).

* Lowering looks at one construct at a time, but for two things: a subscript that is a lone literal
  is not converted, and an earlier `and` or `or` is not asked for its truth again.  Both can be seen
  from the phrase (`Phrase.isLoneLiteral_expr`, `Phrase.expr_ne_joined`).
* Literals, numbers and names are spelled in the target language as `Target.Spelling` says.
  Sections 2 and 3 have one equation for each construct, from what the printer writes to what is
  spelled.
* The induction over the phrase then applies the equation of each construct to its parts.
-/

namespace TemplateCompiler

open Text Reading Target

/-! ## 1. What lowering looks at -/

/-- A phrase reads as a lone literal exactly if it is a string or an integer with nothing around it.
-/
theorem Phrase.isLoneLiteral_expr {r : Rank} (p : Phrase r) :
    p.expr.isLoneLiteral = p.isLiteral := by
  induction p with
  | constant c => cases c <;> rfl
  | sign negative operand _ => cases negative <;> rfl
  | filter operand f _ =>
    rw [expr, Filter.apply]
    split <;> rfl
  | lift _ inner ih => exact ih
  | _ => rfl

/-- A phrase that shows no `and` is no conjunction, and one that shows no `or` is no disjunction. -/
theorem Phrase.expr_ne_joined {r : Rank} (p : Phrase r) :
    ("and".toList ∈ r.absentWords → ∀ a b, p.expr ≠ .and a b) ∧
      ("or".toList ∈ r.absentWords → ∀ a b, p.expr ≠ .or a b) := by
  induction p with
  | constant c => cases c <;> simp [expr, Constant.expr]
  | sign negative operand _ => cases negative <;> simp [expr]
  | filter operand f _ =>
    rw [expr, Filter.apply]
    split <;> simp
  | and left right => exact ⟨fun hr => absurd hr (by decide), by simp [expr]⟩
  | or left right => exact ⟨by simp [expr], fun hr => absurd hr (by decide)⟩
  | lift h inner ih =>
    exact ⟨fun hr => ih.1 (h.mem_absentWords hr), fun hr => ih.2 (h.mem_absentWords hr)⟩
  | _ => simp [expr]

/-! ## 2. Texts -/

/-- Wherever a value is wanted, the text of the part is wrapped once. -/
theorem print_convert (c : Code) : (Code.convert c).print = valueText c.print := by
  unfold valueText
  simp [call]

theorem print_truthOf (c : Code) : (truthOf c).print = truthText c.print := by
  unfold truthText
  rw [← print_convert, truthOf, Code.print_truthy]
  simp [call]

theorem print_negateIf (negated : Bool) (c : Code) :
    (negateIf negated c).print = (if negated then ['!'] else []) ++ c.print := by
  cases negated <;> rfl

/-- **A name is written for what it means in the scope.** -/
theorem print_resolve (scope : Scope) {n : List Char} (h : isIdentifier n = true) :
    (scope.resolve n).print = nameText scope n := by
  simp only [Scope.resolve, nameText, List.contains_iff_mem, ← quote_eq_literalText,
    ← bindingName_eq_bindingText h]
  split
  · simp [call]
  split
  · simp
  · simp [call]

/-- The table of target symbols agrees with the printer's. -/
theorem BinOp.targetSymbol_eq (op : BinOp) : op.targetSymbol = operatorText op := by
  cases op <;> rfl

/-- An operator with a blank on each side. -/
theorem print_binary (left right : Code) (op : BinOp) :
    (Code.binary left op right).print = spaced left.print op.targetSymbol right.print := by
  simp [spaced, BinOp.targetSymbol_eq]

theorem print_and (left right : Code) :
    (Code.and left right).print = spaced left.print "&&".toList right.print := by
  simp [spaced]

theorem print_or (left right : Code) :
    (Code.or left right).print = spaced left.print "||".toList right.print := by
  simp [spaced]

/-! ## 3. Constructs with one text around their parts -/

theorem print_text (value : List Char) :
    (Code.text value).print = valueText (literalText value) := by
  rw [Code.print_text, quote_eq_literalText]
  unfold valueText
  simp [call]

/-- Digits are written as the number that they stand for. -/
theorem print_int {digits : List Char} (h : IsInteger digits) :
    (Code.int (decimalValue digits)).print =
      "Value::Int(".toList ++ plainDigits digits ++ ")".toList := by
  rw [Code.print_int, toDigits_decimalValue h.digits.2]
  simp [call]

theorem print_prop (subject : Code) (n : List Char) :
    (Code.prop subject n).print =
      "get_prop(&".toList ++ subject.print ++ ", ".toList ++ literalText n ++ ")".toList := by
  rw [Code.print_prop, quote_eq_literalText]
  simp [call]

/-- The subject of a subscript and its key are borrowed. -/
theorem print_index (subject key : Code) :
    (Code.index subject key).print =
      "get_index(&".toList ++ subject.print ++ ", &".toList ++ key.print ++ ")".toList := by
  simp [call]

theorem print_contains (container element : Code) (negated : Bool) :
    (negateIf negated (.contains (.convert container) (.convert element))).print =
      (if negated then ['!'] else []) ++ "contains(&".toList ++ valueText container.print ++
        ", &".toList ++ valueText element.print ++ ")".toList := by
  rw [print_negateIf, Code.print_contains, print_convert, print_convert]
  simp [call]

theorem print_isDefined (subject : Code) (negated : Bool) :
    (negateIf negated (.isDefined (.convert subject))).print =
      (if negated then ['!'] else []) ++ "is_defined(&".toList ++ valueText subject.print ++
        ")".toList := by
  rw [print_negateIf, Code.print_isDefined, print_convert]
  simp [call]

/-- `tojson` has a function of its own; any other filter leaves a comment and the plain text. -/
theorem print_filter (scope : Scope) (f : Filter) (e : Expr) :
    (lower scope (f.apply e)).print =
      if f.name = "tojson".toList then
        "to_json(&".toList ++ valueText (lower scope e).print ++ ")".toList
      else
        "/* unsupported filter: ".toList ++ f.name ++ " */ Value::from(to_string_safe(&".toList ++
          valueText (lower scope e).print ++ "))".toList := by
  rw [Filter.apply]
  split
  · rw [lower, Code.print_toJson, print_convert]
    simp [call]
  · rw [lower, Code.print_stringify, print_convert]
    simp [call]

/-! ## 4. The generated text of a phrase -/

section
variable {scope : Scope}

/-- A key that is a lone literal is borrowed directly, any other key as a value. -/
theorem Phrase.print_lower_item {subject : Phrase .primary} {key : Phrase .disjunction}
    (hs : (lower scope subject.expr).print = subject.code scope)
    (hk : (lower scope key.expr).print = key.code scope) :
    (lower scope (Phrase.item subject key).expr).print = (Phrase.item subject key).code scope := by
  have hkey : (if key.expr.isLoneLiteral then lower scope key.expr
      else .convert (lower scope key.expr)).print =
      if key.isLiteral then key.code scope else valueText (key.code scope) := by
    rw [key.isLoneLiteral_expr]
    split
    · exact hk
    · rw [print_convert, hk]
  change (Code.index (lower scope subject.expr) (if key.expr.isLoneLiteral then
      lower scope key.expr else .convert (lower scope key.expr))).print =
    "get_index(&".toList ++ subject.code scope ++ ", &".toList ++
      (if key.isLiteral then key.code scope else valueText (key.code scope)) ++ ")".toList
  rw [print_index, hkey, hs]

/-- A conjunction that goes on is flat: what comes before the last `and` is not asked for its truth
again. -/
theorem Phrase.print_lower_and {left : Phrase .conjunction} {right : Phrase .negation}
    (hl : (lower scope left.expr).print = left.code scope)
    (hr : (lower scope right.expr).print = right.code scope) :
    (lower scope (Phrase.and left right).expr).print = (Phrase.and left right).code scope := by
  cases left with
  | and a b =>
    change (Code.and (lower scope (Phrase.and a b).expr) (truthOf (lower scope right.expr))).print =
      spaced ((Phrase.and a b).code scope) "&&".toList (truthText (right.code scope))
    rw [print_and, hl, print_truthOf, hr]
  | lift h inner =>
    have hne : ∀ a b, inner.expr ≠ .and a b := by
      cases h
      exact inner.expr_ne_joined.1 (by decide)
    change (lower scope (.and inner.expr right.expr)).print =
      spaced (truthText (inner.code scope)) "&&".toList (truthText (right.code scope))
    change (lower scope inner.expr).print = inner.code scope at hl
    rw [lower_and_of_ne _ hne, print_and, print_truthOf, print_truthOf, hl, hr]

/-- The same for a disjunction. -/
theorem Phrase.print_lower_or {left : Phrase .disjunction} {right : Phrase .conjunction}
    (hl : (lower scope left.expr).print = left.code scope)
    (hr : (lower scope right.expr).print = right.code scope) :
    (lower scope (Phrase.or left right).expr).print = (Phrase.or left right).code scope := by
  cases left with
  | or a b =>
    change (Code.or (lower scope (Phrase.or a b).expr) (truthOf (lower scope right.expr))).print =
      spaced ((Phrase.or a b).code scope) "||".toList (truthText (right.code scope))
    rw [print_or, hl, print_truthOf, hr]
  | lift h inner =>
    have hne : ∀ a b, inner.expr ≠ .or a b := by
      cases h
      exact inner.expr_ne_joined.2 (by decide)
    change (lower scope (.or inner.expr right.expr)).print =
      spaced (truthText (inner.code scope)) "||".toList (truthText (right.code scope))
    change (lower scope inner.expr).print = inner.code scope at hl
    rw [lower_or_of_ne _ hne, print_or, print_truthOf, print_truthOf, hl, hr]

end

/-- **The generated text is put together from the texts of the parts.** -/
theorem Phrase.print_lower (scope : Scope) {r : Rank} (p : Phrase r) :
    (lower scope p.expr).print = p.code scope := by
  induction p with
  | text q hq pieces => exact print_text _
  | int digits h => exact print_int h
  | constant c => cases c <;> rfl
  | name n h => exact print_resolve scope h.isIdentifier
  | group inner ih => exact (print_convert _).trans (congrArg valueText ih)
  | attr subject n h ih =>
    refine (print_prop _ n).trans ?_
    rw [ih]
    rfl
  | item subject key ihs ihk => exact print_lower_item ihs ihk
  | sign negative operand ih =>
    cases negative with
    | false => exact ih
    | true => exact congrArg ('-' :: ·) ih
  | filter operand f ih =>
    refine (print_filter scope f _).trans ?_
    rw [ih]
    rfl
  | arith left op _ right ihl ihr =>
    refine (print_binary _ _ op).trans ?_
    rw [ihl, ihr]
    rfl
  | compare left op _ right ihl ihr =>
    refine (print_binary _ _ op).trans ?_
    rw [ihl, ihr]
    rfl
  | member negated element container ihe ihc =>
    refine (print_contains _ _ negated).trans ?_
    rw [ihe, ihc]
    rfl
  | defined subject negated undefined ih =>
    refine (print_isDefined _ (negated != undefined)).trans ?_
    rw [ih]
    rfl
  | not operand ih => exact congrArg ('!' :: ·) ((print_truthOf _).trans (congrArg truthText ih))
  | and left right ihl ihr => exact print_lower_and ihl ihr
  | or left right ihl ihr => exact print_lower_or ihl ihr
  | lift _ inner ih => exact ih

/-- **A printed phrase compiles to the text that its constructs give**, whatever names are in scope.
-/
theorem Target.compileExpr_print (scope : Scope) (p : Phrase .disjunction) :
    (compileExpr scope p.print).map Code.print = .ok (p.code scope) := by
  rw [compileExpr, Expr.read_print]
  exact congrArg Except.ok (p.print_lower scope)

/-- A phrase with a number that has a zero in front, an escape, a keyword and a taken name of the
generated language, a filter, subscripts and a membership. -/
def keyPhrase : Phrase .disjunction :=
  let loop : Phrase .primary := .name "loop".toList ⟨by decide, by decide, by decide⟩
  let context : Phrase .primary := .name "context".toList ⟨by decide, by decide, by decide⟩
  let place : Phrase .primary := .int "010".toList ⟨by decide, by decide⟩
  let mark : Phrase .primary :=
    .text '\'' rfl [.raw '\t' (by decide) (by decide), .escape .singleQuote, .escape .doubleQuote]
  let chain (p : Phrase .primary) : Phrase (.chain false) :=
    .lift .operand <| .lift .signed <| .lift .primary p
  let loose (p : Phrase .primary) : Phrase .disjunction :=
    .lift .conjunction <| .lift .negation <| .lift .test <| .lift (.chain false) <| chain p
  let filtered : Phrase .operand := .filter (.lift .signed <| .sign true <| .lift .primary <|
    .attr context "type".toList (by decide)) ⟨"tojson".toList, none, by decide, by decide,
      by simp, fun _ => rfl⟩
  .lift .conjunction <| .lift .negation <| .not <| .lift .test <|
    .member true (.arith (chain (.item loop (loose place))) .concat (by decide) filtered)
      (chain (.item context (loose (.item loop (loose mark)))))

/-- The theorem at this phrase, where `loop` is bound and `context` is a field. -/
theorem Target.compileExpr_print_keys :
    (compileExpr ⟨["context".toList], ["loop".toList]⟩
        "not loop[010] ~ -context.type | tojson not in context[loop['\t\\'\\\"']]".toList).map
          Code.print =
      .ok ("!truthy(&Value::from(!contains(".toList ++
        "&Value::from(get_index(".toList ++ "&context.context_.clone(), ".toList ++
        "&Value::from(get_index(".toList ++ "&get_var(&__locals, ".toList ++
        "\"loop\", &r#loop), ".toList ++ "&Value::from(\"\\t'\\\"\")))".toList ++
        ")), &Value::from(".toList ++ "get_index(&get_var(&__locals, ".toList ++
        "\"loop\", &r#loop), ".toList ++ "&Value::Int(10)) ^ ".toList ++
        "to_json(&Value::from(".toList ++ "-get_prop(".toList ++
        "&context.context_.clone(), ".toList ++ "\"type\")))))))".toList) := by
  have hprint : keyPhrase.print =
      "not loop[010] ~ -context.type | tojson not in context[loop['\t\\'\\\"']]".toList := by
    decide
  rw [← hprint]
  refine (compileExpr_print _ keyPhrase).trans (congrArg Except.ok ?_)
  decide +kernel

end TemplateCompiler
