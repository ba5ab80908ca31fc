import TemplateCompiler.Expr.Bounds
import TemplateCompiler.Proofs.Decimal.Sign
import TemplateCompiler.Proofs.Outcome
import TemplateCompiler.Proofs.Text.Word

/-! # The shape of an expression that was read

Not every tree is the reading of some text: a sign stands before an operand only, an attribute is
taken of an operand, and a chain compares at most once.  `Shaped` says what holds of every tree
that the reader gives (`Expr.shaped_of_read`), by the form in which the tree was read:

* an **operand**: a literal, a name, an expression in parentheses, or one of these with subscripts,
  signs and filters.  Literals are bounded as the reader bounds them;
* a **chain** of operands and operators, which knows whether one of its operators compares.  Chains
  lean to the left whatever the operators are: how tightly each of them binds is left to the target;
* a **whole** expression: a chain, or parts put together by words.

What is compiled is only ever the lowering of such a tree.  So an induction over `Shaped` is the way
to prove something of all generated code, and the forms are what makes such an induction go
through: an operand needs no parentheses where a chain would.

Each function of the reader keeps the shape, if the reader of inner expressions does (`Faithful`);
the theorem about `Expr.read` follows by induction on the length of the text.
-/

namespace TemplateCompiler

open Text Reading

/-! ## 1. Shapes -/

/-- How an expression was read. -/
inductive Form where
  | operand
  /-- Operands and operators; `compared` says that one of the operators compares. -/
  | chain (compared : Bool)
  | whole
  deriving DecidableEq, Repr

/-- The expressions of a form. -/
inductive Shaped : Form → Expr → Prop
  | text (value : List Char) : Shaped .operand (.text value)
  | int {value : Nat} (plain : Bool) (h : value < integerLimit) : Shaped .operand (.int value plain)
  | float {value : Float} (h : Decimal.IsUnsigned value) : Shaped .operand (.float value)
  | bool (value : Bool) : Shaped .operand (.bool value)
  | null : Shaped .operand .null
  | name {n : List Char} (h : isIdentifier n = true) : Shaped .operand (.name n)
  | group {e : Expr} (h : Shaped .whole e) : Shaped .operand (.group e)
  | attr {e : Expr} (n : List Char) (h : Shaped .operand e) : Shaped .operand (.attr e n)
  | place {e : Expr} {index : Nat} (h : Shaped .operand e) (hi : index < integerLimit) :
      Shaped .operand (.place e index)
  | item {e key : Expr} (h : Shaped .operand e) (hkey : Shaped .whole key) :
      Shaped .operand (.item e key)
  | neg {e : Expr} (h : Shaped .operand e) : Shaped .operand (.neg e)
  | pos {e : Expr} (h : Shaped .operand e) : Shaped .operand (.pos e)
  | toJson {e : Expr} (h : Shaped .operand e) : Shaped .operand (.toJson e)
  | filter {e : Expr} {n : List Char} (h : Shaped .operand e)
      (hn : ∀ c ∈ n, isIdentChar c = true) : Shaped .operand (.filter e n)
  | single {e : Expr} (h : Shaped .operand e) : Shaped (.chain false) e
  | arith {compared : Bool} {left right : Expr} {op : BinOp} (hop : op.isComparison = false)
      (hl : Shaped (.chain compared) left) (hr : Shaped .operand right) :
      Shaped (.chain compared) (.binary left op right)
  | compare {left right : Expr} {op : BinOp} (hop : op.isComparison = true)
      (hl : Shaped (.chain false) left) (hr : Shaped .operand right) :
      Shaped (.chain true) (.binary left op right)
  | ofChain {compared : Bool} {e : Expr} (h : Shaped (.chain compared) e) : Shaped .whole e
  | defined {e : Expr} (negated : Bool) (h : Shaped .whole e) :
      Shaped .whole (.defined negated e)
  | member {item container : Expr} (negated : Bool) (hi : Shaped .whole item)
      (hc : Shaped .whole container) : Shaped .whole (.member negated item container)
  | not {e : Expr} (h : Shaped .whole e) : Shaped .whole (.not e)
  | and {left right : Expr} (hl : Shaped .whole left) (hr : Shaped .whole right) :
      Shaped .whole (.and left right)
  | or {left right : Expr} (hl : Shaped .whole left) (hr : Shaped .whole right) :
      Shaped .whole (.or left right)

/-! ## 2. Answers -/

/-- An expression that was read with a rest. -/
theorem eq_ok_of_map_rest {r : Except Fault Expr} {e : Expr} {after rest : List Char}
    (h : r.map (·, after) = .ok (e, rest)) : r = .ok e := by
  obtain ⟨a, ha, he⟩ := eq_ok_of_map h
  cases he
  exact ha

/-- A reader of inner expressions that keeps the shape. -/
def Faithful (self : Reader) : Prop :=
  ∀ (t : List Char) (e : Expr), self t = .ok e → Shaped .whole e

/-! ## 3. Operands -/

/-- A decimal number has no sign of its own, however its power is written. -/
theorem shaped_decimal {written significand : List Char} {exponent : Int} {e : Expr}
    (h : decimal written significand exponent = .ok e) : Shaped .operand e := by
  unfold decimal at h
  dsimp only at h
  split at h
  · cases h
    exact .float (Decimal.toFloat_unsigned _)
  · cases h

/-- An integer is read only if it is within the bounds of the target. -/
theorem shaped_integer {digits : List Char} {plain : Bool} {e : Expr}
    (h : integer digits plain = .ok e) : Shaped .operand e := by
  unfold integer at h
  split at h
  · rename_i hlt
    cases h
    exact .int plain hlt
  · cases h

theorem shaped_number {cs rest : List Char} {e : Expr} (h : number cs = .ok (e, rest)) :
    Shaped .operand e := by
  unfold number at h
  dsimp only at h
  split at h
  · split at h
    · exact shaped_decimal (eq_ok_of_map_rest h)
    · exact shaped_decimal (eq_ok_of_map_rest h)
  · split at h
    · exact shaped_decimal (eq_ok_of_map_rest h)
    · exact shaped_integer (eq_ok_of_map_rest h)

/-- A run of characters of names is a name, if its first character may begin one. -/
theorem isIdentifier_takeWhile {c : Char} (rest : List Char) (hc : isIdentStart c = true) :
    isIdentifier ((c :: rest).takeWhile isIdentChar) = true := by
  rw [List.takeWhile_cons_of_pos (isIdentChar_of_isIdentStart hc)]
  simp only [isIdentifier, hc, Bool.true_and]
  exact List.all_takeWhile

/-- The words for constants give leaves. -/
theorem shaped_constant? {w : List Char} {e : Expr} (h : constant? w = some e) :
    Shaped .operand e := by
  unfold constant? at h
  split at h
  · cases h; exact .bool true
  split at h
  · cases h; exact .bool false
  split at h
  · cases h; exact .null
  · cases h

/-- A word is a constant or a name.  Words that are neither, such as `in`, are refused, so they
stand in no tree. -/
theorem shaped_word {c : Char} {cs rest : List Char} {e : Expr} (hc : isIdentStart c = true)
    (h : word (c :: cs) = .ok (e, rest)) : Shaped .operand e := by
  unfold word at h
  dsimp only at h
  split at h
  · rename_i hconst
    cases h
    exact shaped_constant? hconst
  split at h
  · cases h
  split at h
  · cases h
  · cases h
    exact .name (isIdentifier_takeWhile cs hc)

/-- Only between parentheses is there a whole expression below an operand; it was read by the reader
of inner expressions. -/
theorem shaped_primary {self : Reader} (hself : Faithful self) {source cs rest : List Char}
    {e : Expr} (h : primary self source cs = .ok (e, rest)) : Shaped .operand e := by
  unfold primary at h
  split at h
  · cases h
  · rename_i c cs
    split at h
    · split at h
      · cases h
        exact .text _
      · cases h
    split at h
    · exact shaped_number (eq_ok_of_blame h)
    split at h
    · split at h
      · cases h
      split at h
      · cases h
      split at h
      · cases h
      · obtain ⟨inner, hinner, he⟩ := eq_ok_of_bind h
        cases he
        exact .group (hself _ _ hinner)
    split at h
    · cases h
    split at h
    · cases h
    split at h
    · rename_i hc
      exact shaped_word hc (eq_ok_of_blame h)
    · cases h

/-- Behind a point there is a name or a place in a list.  The place is bounded as integers are. -/
theorem shaped_attributeAfter {subject e : Expr} {cs rest : List Char}
    (hs : Shaped .operand subject) (h : attributeAfter subject cs = .ok (e, rest)) :
    Shaped .operand e := by
  unfold attributeAfter at h
  dsimp only at h
  split at h
  · cases h
  split at h
  · cases h
  split at h
  · split at h
    · rename_i hlt
      cases h
      exact .place hs hlt
    · cases h
  · cases h
    exact .attr _ hs

/-- Attributes and subscripts are taken of an operand and give an operand, however many there are.
-/
theorem shaped_postfixes {self : Reader} (hself : Faithful self) {source cs rest : List Char}
    {subject e : Expr} (hs : Shaped .operand subject)
    (h : postfixes self source subject cs = .ok (e, rest)) : Shaped .operand e := by
  induction hn : cs.length using Nat.strongRecOn generalizing subject cs with
  | _ n ih =>
    subst hn
    cases cs with
    | nil =>
      rw [postfixes_nil] at h
      cases h
      exact hs
    | cons c cs =>
      rw [postfixes_cons] at h
      split at h
      · split at h
        · cases h
        · rename_i hattr
          have hl := length_attributeAfter_le hattr
          exact ih _ (by simp only [List.length_cons]; omega) (shaped_attributeAfter hs hattr) h rfl
      split at h
      · split at h
        · cases h
        · rename_i inner after hclose
          have hl := length_closeFrom_lt hclose
          split at h
          · cases h
          split at h
          · cases h
          · obtain ⟨key, hkey, he⟩ := eq_ok_of_bind h
            exact ih _ (by simp only [List.length_cons]; omega) (.item hs (hself _ _ hkey)) he rfl
      split at h
      · cases h
      · cases h
        exact hs

/-- A filter is applied to an operand and gives one.  Its name is made of characters of names, since
that is how its end was found. -/
theorem shaped_oneFilter {operand e : Expr} {cs rest : List Char} (ho : Shaped .operand operand)
    (h : oneFilter operand cs = .ok (e, rest)) : Shaped .operand e := by
  unfold oneFilter at h
  dsimp only at h
  split at h
  · cases h
  · cases hs : skipArguments ((trimStart cs).dropWhile isIdentChar) with
    | error f => simp [hs, bind, Except.bind] at h
    | ok r =>
      simp only [hs, bind, Except.bind] at h
      split at h
      · split at h
        · cases h
        · cases h
          exact .toJson ho
      · cases h
        exact .filter ho (List.all_eq_true.1 List.all_takeWhile)

/-- Filters follow each other as subscripts do. -/
theorem shaped_filters {source cs rest : List Char} {operand e : Expr}
    (ho : Shaped .operand operand) (h : filters source operand cs = .ok (e, rest)) :
    Shaped .operand e := by
  induction hn : cs.length using Nat.strongRecOn generalizing operand cs with
  | _ n ih =>
    subst hn
    have ht := length_trimStart_le cs
    rw [filters_eq] at h
    split at h
    · cases h
      exact ho
    · rename_i c after hc
      rw [hc, List.length_cons] at ht
      split at h
      · split at h
        · cases h
        · rename_i hfilter
          have hl := length_oneFilter_le hfilter
          exact ih _ (by omega) (shaped_oneFilter ho hfilter) h rfl
      · cases h
        exact ho

/-- The signs in front are applied after subscripts and before filters, so they stand between
operands. -/
theorem shaped_signs {e : Expr} (signs : List Char) (h : Shaped .operand e) :
    Shaped .operand (signs.foldr applySign e) := by
  induction signs with
  | nil => exact h
  | cons s signs ih =>
    rw [List.foldr_cons, applySign]
    split
    · exact .neg ih
    · exact .pos ih

/-- **An operand is shaped as one**: the four steps of its reader, in order. -/
theorem shaped_operand {self : Reader} (hself : Faithful self) {source cs rest : List Char}
    {e : Expr} (h : operand self source cs = .ok (e, rest)) : Shaped .operand e := by
  obtain ⟨⟨first, after⟩, hfirst, h⟩ := eq_ok_of_bind h
  obtain ⟨⟨second, after'⟩, hsecond, h⟩ := eq_ok_of_bind h
  exact shaped_filters (shaped_signs _ (shaped_postfixes hself (shaped_primary hself hfirst) hsecond))
    h

/-! ## 4. Chains -/

/-- What stands before an operand of a chain. -/
def ShapedBefore (compared : Bool) (before : Option (Expr × BinOp)) : Prop :=
  match before with
  | none => compared = false
  | some (left, op) =>
    (op.isComparison = true ∧ compared = true ∧ Shaped (.chain false) left) ∨
      (op.isComparison = false ∧ Shaped (.chain compared) left)

/-- What has been read and the next operand make a longer chain.  Whether it compares is told by
what stood before. -/
theorem shaped_extend {compared : Bool} {before : Option (Expr × BinOp)} {e : Expr}
    (hb : ShapedBefore compared before) (he : Shaped .operand e) :
    Shaped (.chain compared) (extend before e) := by
  cases before with
  | none =>
    obtain rfl : compared = false := hb
    exact .single he
  | some p =>
    obtain ⟨left, op⟩ := p
    rcases hb with ⟨hop, rfl, hl⟩ | ⟨hop, hl⟩
    · exact .compare hop hl he
    · exact .arith hop hl he

/-- **A chain compares at most once.** -/
theorem shaped_chain {self : Reader} (hself : Faithful self) {source cs : List Char} {e : Expr}
    {allowed : Nat} {before : Option (Expr × BinOp)} {compared : Bool}
    (hb : ShapedBefore compared before)
    (h : chain self source allowed before compared cs = .ok e) : Shaped .whole e := by
  induction allowed generalizing before compared cs with
  | zero => cases h
  | succ allowed ih =>
    unfold chain at h
    obtain ⟨⟨first, rest⟩, hfirst, h⟩ := eq_ok_of_bind h
    have hleft := shaped_extend hb (shaped_operand hself hfirst)
    cases rest with
    | nil =>
      cases h
      exact .ofChain hleft
    | cons c rest =>
      obtain ⟨⟨op, after⟩, -, h⟩ := eq_ok_of_bind h
      dsimp only at h
      split at h
      · cases h
      · rename_i hcompare
        refine ih ?_ h
        cases hop : op.isComparison with
        | true =>
          have hfalse : compared = false := by simpa [hop] using hcompare
          subst hfalse
          exact .inl ⟨hop, rfl, hleft⟩
        | false =>
          rw [Bool.or_false]
          exact .inr ⟨hop, hleft⟩

/-! ## 5. Whole expressions -/

/-- Both tests, negated or not, give the same node over what the inner reader gave. -/
theorem shaped_test {self : Reader} (hself : Faithful self) {source subject name : List Char}
    {e : Expr} (h : test self source subject name = .ok e) : Shaped .whole e := by
  have hnamed (negated : Bool) (name : List Char) (h : (if name = "defined".toList then
        return .defined negated (← self subject)
      else if name = "undefined".toList then return .defined (!negated) (← self subject)
      else blame source (.error (.unsupportedTest name))) = .ok e) : Shaped .whole e := by
    split at h
    · obtain ⟨inner, hinner, he⟩ := eq_ok_of_bind h
      cases he
      exact .defined _ (hself _ _ hinner)
    split at h
    · obtain ⟨inner, hinner, he⟩ := eq_ok_of_bind h
      cases he
      exact .defined _ (hself _ _ hinner)
    · cases h
  exact hnamed _ _ h

/-- One part between the words `and` or `or`. -/
theorem shaped_part {self : Reader} (hself : Faithful self) {source cs : List Char} {e : Expr}
    (h : part self source cs = .ok e) : Shaped .whole e := by
  unfold part at h
  split at h
  · cases h
  · exact hself _ _ h

/-- Parts are joined from the left, and the joined tree is whole if the parts are. -/
theorem shaped_joinParts {self : Reader} (hself : Faithful self) {source first : List Char}
    {rest : List (List Char)} {join : Expr → Expr → Expr} {e : Expr}
    (hjoin : ∀ a b, Shaped .whole a → Shaped .whole b → Shaped .whole (join a b))
    (h : joinParts self source join first rest = .ok e) : Shaped .whole e := by
  obtain ⟨acc, hacc, hfold⟩ := eq_ok_of_bind h
  have ha := shaped_part hself hacc
  clear h hacc
  induction rest generalizing acc with
  | nil =>
    cases hfold
    exact ha
  | cons cs rest ih =>
    rw [List.foldlM_cons] at hfold
    obtain ⟨acc', hacc', hmore⟩ := eq_ok_of_bind hfold
    obtain ⟨b, hb, he⟩ := eq_ok_of_bind hacc'
    cases he
    exact ih _ hmore (hjoin _ _ ha (shaped_part hself hb))

/-- Both sides of `in` are texts of their own. -/
theorem shaped_membership {self : Reader} (hself : Faithful self)
    {source before after : List Char} {e : Expr}
    (h : membership self source before after = .ok e) : Shaped .whole e := by
  unfold membership at h
  dsimp only at h
  split at h
  · cases h
  · obtain ⟨container, hc, h⟩ := eq_ok_of_bind h
    obtain ⟨item, hi, h⟩ := eq_ok_of_bind h
    cases h
    exact .member _ (hself _ _ hi) (hself _ _ hc)

/-- Five kinds of expression below tests, tried in the order of their precedence. -/
theorem shaped_boolean {self : Reader} (hself : Faithful self) {source : List Char} {e : Expr}
    (h : boolean self source = .ok e) : Shaped .whole e := by
  unfold boolean at h
  split at h
  · exact shaped_joinParts hself (fun _ _ => .or) h
  split at h
  · exact shaped_joinParts hself (fun _ _ => .and) h
  split at h
  · obtain ⟨inner, hinner, he⟩ := eq_ok_of_bind h
    cases he
    exact .not (hself _ _ hinner)
  split at h
  · exact shaped_membership hself h
  · have hb : ShapedBefore false none := rfl
    exact shaped_chain hself hb h

/-- Reading keeps the shape if the reading of inner expressions does. -/
theorem shaped_readWith {self : Reader} (hself : Faithful self) {expr : List Char} {e : Expr}
    (h : readWith self expr = .ok e) : Shaped .whole e := by
  unfold readWith at h
  dsimp only at h
  split at h
  · cases h
  split at h
  · exact shaped_test hself h
  · exact shaped_boolean hself h

/-- **Every expression that is read has the shape of a whole expression.** -/
theorem Expr.shaped_of_read {cs : List Char} {e : Expr} (h : Expr.read cs = .ok e) :
    Shaped .whole e := by
  induction hn : cs.length using Nat.strongRecOn generalizing cs e with
  | _ n ih =>
    subst hn
    rw [Expr.read] at h
    refine shaped_readWith (fun t e ht => ?_) h
    split at ht
    · rename_i hlt
      exact ih _ hlt ht rfl
    · cases ht

end TemplateCompiler
