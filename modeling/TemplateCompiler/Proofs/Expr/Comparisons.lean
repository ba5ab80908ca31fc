import TemplateCompiler.Proofs.Expr.Extent
import Mathlib.Data.List.Chain

/-! # Comparisons that stand beside each other

The *joints* of a text are the words `or`, `and` and `in` and the comparison signs at its top level,
in the order in which they stand there.  Between an `or` or an `and` and the next one lies a piece,
and in a piece every joint compares.

The chain that is read at the end of all cutting has one comparison sign at most, so two signs never
stand beside each other without a word between them (`Accepted.sparse`).  But a membership test is
cut at its word, and each of its sides is read by itself: `in` is not counted with the comparisons
of its sides, nor with another `in` (`compileExpr_chained_in`).
-/

namespace TemplateCompiler

open Text Reading

namespace Text

/-! ## 1. Joints -/

/-- An operator that is looser than arithmetic. -/
inductive Joint where
  | or
  | and
  /-- The word of a membership test.  With a `not` before it, it is one joint too. -/
  | member
  /-- One of the six comparison signs. -/
  | comparison
  deriving DecidableEq, Repr

/-- Whether a joint parts a text into pieces. -/
def Joint.isConnective : Joint → Bool
  | .or | .and => true
  | .member | .comparison => false

/-- Whether `c` is the first character of a comparison sign, if `rest` follows. -/
def startsComparison (c : Char) (rest : List Char) : Bool :=
  c == '<' || c == '>' || ((c == '=' || c == '!') && rest.head? == some '=')

/-- The joint that a text starts with, if it is a word. -/
def wordJoint? (cs : List Char) : Option Joint :=
  if startsWithWord "or".toList cs then some .or
  else if startsWithWord "and".toList cs then some .and
  else if startsWithWord "in".toList cs then some .member
  else none

/-- The joint that starts with `c`, if `rest` follows.  A word has a blank on either side. -/
def Scan.joint? (s : Scan) (afterBlank : Bool) (c : Char) (rest : List Char) : Option Joint :=
  if !s.shows c then none
  else if startsComparison c rest then some .comparison
  else if afterBlank then wordJoint? (c :: rest)
  else none

/-- The joints that start in a text, if `more` follows it. -/
def Scan.joints (s : Scan) (afterBlank : Bool) (more : List Char) : List Char → List Joint
  | [] => []
  | c :: rest =>
    (s.joint? afterBlank c (rest ++ more)).toList ++ (s.next c).joints (isBlank c) more rest

/-- The joints of a text. -/
def joints (cs : List Char) : List Joint := Scan.start.joints false [] cs

/-- The joints of each piece between two connectives.  A `not` at the start of a piece is no
joint. -/
def pieces (cs : List Char) : List (List Joint) := (joints cs).splitOnP Joint.isConnective

/-! ## 2. The joints of the parts of a text -/

@[simp] theorem Scan.joints_nil (s : Scan) (afterBlank : Bool) (more : List Char) :
    s.joints afterBlank more [] = [] := rfl

theorem Scan.joints_cons (s : Scan) (afterBlank : Bool) (more : List Char) (c : Char)
    (rest : List Char) :
    s.joints afterBlank more (c :: rest) =
      (s.joint? afterBlank c (rest ++ more)).toList ++ (s.next c).joints (isBlank c) more rest :=
  rfl

/-- Whether the last character is blank; in an empty text, whether the one before it is. -/
def endsBlank (afterBlank : Bool) (cs : List Char) : Bool :=
  cs.foldl (fun _ c => isBlank c) afterBlank

@[simp] theorem endsBlank_concat (afterBlank : Bool) (cs : List Char) (c : Char) :
    endsBlank afterBlank (cs ++ [c]) = isBlank c := by
  simp [endsBlank]

theorem Scan.joints_append (s : Scan) (afterBlank : Bool) (more as bs : List Char) :
    s.joints afterBlank more (as ++ bs) =
      s.joints afterBlank (bs ++ more) as ++
        (as.foldl Scan.next s).joints (endsBlank afterBlank as) more bs := by
  induction as generalizing s afterBlank with
  | nil => rfl
  | cons c as ih =>
    rw [List.cons_append, Scan.joints_cons, Scan.joints_cons, ih, List.append_assoc as bs more,
      List.append_assoc]
    rfl

/-- What is not shown is no joint. -/
theorem Scan.joint?_of_hidden {s : Scan} {c : Char} (h : s.shows c = false) (afterBlank : Bool)
    (rest : List Char) : s.joint? afterBlank c rest = none := by
  simp [Scan.joint?, h]

theorem wordJoint?_ne_comparison (cs : List Char) : wordJoint? cs ≠ some .comparison := by
  unfold wordJoint?
  repeat' split
  all_goals simp

/-- A character of no comparison sign starts no comparison. -/
theorem startsComparison_of_not_sign {c : Char} (h : isSign c = false) (rest : List Char) :
    startsComparison c rest = false := by
  simp only [isSign, Bool.or_eq_false_iff] at h
  simp [startsComparison, h]

theorem Scan.joint?_ne_comparison {c : Char} (h : isSign c = false) (s : Scan)
    (afterBlank : Bool) (rest : List Char) : s.joint? afterBlank c rest ≠ some .comparison := by
  unfold Scan.joint?
  rw [startsComparison_of_not_sign h]
  split
  · simp
  split
  · contradiction
  split
  · exact wordJoint?_ne_comparison _
  · simp

/-- At top level every character is shown that neither opens nor closes anything. -/
theorem Scan.shows_within_of_isPlain {c : Char} (hc : isPlain c = true) :
    (Scan.within 0).shows c = true := by
  obtain ⟨hq, -, hcl⟩ := isPlain_iff.1 hc
  simp [Scan.within, Scan.shows, hq, hcl]

theorem count_joint? {c : Char} (hc : isPlain c = true) (afterBlank : Bool) (rest : List Char) :
    ((Scan.within 0).joint? afterBlank c rest).toList.count .comparison =
      if startsComparison c rest then 1 else 0 := by
  unfold Scan.joint?
  rw [Scan.shows_within_of_isPlain hc]
  by_cases hstart : startsComparison c rest = true
  · rw [hstart]
    rfl
  · rw [Bool.not_eq_true] at hstart
    rw [hstart]
    cases afterBlank with
    | false => rfl
    | true =>
      refine List.count_eq_zero_of_not_mem fun hmem => ?_
      exact wordJoint?_ne_comparison _ (Option.mem_toList.1 hmem)

/-! ## 3. Balanced texts -/

theorem LiteralBody.foldl_next {q : Char} {body : List Char} (h : LiteralBody q body)
    (depth : Nat) :
    body.foldl Scan.next { literal := .inside q, depth } = { literal := .inside q, depth } := by
  induction h with
  | nil => rfl
  | plain hc hq _ ih => simpa [Scan.next, Literal.next, Literal.depthAfter, hc, hq] using ih
  | escape _ ih => simpa [Scan.next, Literal.next, Literal.depthAfter] using ih

theorem LiteralBody.joints {q : Char} {body : List Char} (h : LiteralBody q body) (depth : Nat)
    (afterBlank : Bool) (more : List Char) :
    ({ literal := .inside q, depth } : Scan).joints afterBlank more body = [] := by
  induction h generalizing afterBlank with
  | nil => rfl
  | plain hc hq _ ih =>
    simpa [Scan.joints_cons, Scan.joint?_of_hidden, Scan.shows, Scan.next, Literal.next,
      Literal.depthAfter, hc, hq] using ih _
  | escape _ ih =>
    simpa [Scan.joints_cons, Scan.joint?_of_hidden, Scan.shows, Scan.next, Literal.next,
      Literal.depthAfter] using ih _

/-- After a literal the scanner is where it was, and the literal has no joint. -/
theorem LiteralBody.quoted {q : Char} {body : List Char} (hq : isQuote q = true)
    (h : LiteralBody q body) (depth : Nat) (afterBlank : Bool) (more : List Char) :
    (q :: (body ++ [q])).foldl Scan.next (Scan.within depth) = Scan.within depth ∧
      (Scan.within depth).joints afterBlank more (q :: (body ++ [q])) = [] := by
  obtain ⟨-, ho, hc, -, hb⟩ := classes_of_isQuote hq
  have hopen : (Scan.within depth).next q = { literal := .inside q, depth } := by
    simp [Scan.within, Scan.next, Literal.next, Literal.depthAfter, hq, ho, hc]
  have hclose : ({ literal := .inside q, depth } : Scan).next q = Scan.within depth := by
    simp [Scan.within, Scan.next, Literal.next, Literal.depthAfter, hb]
  have hfirst : (Scan.within depth).shows q = false := by simp [Scan.within, Scan.shows, hq]
  have hlast : ({ literal := .inside q, depth } : Scan).shows q = false := by simp [Scan.shows]
  constructor
  · simp [hopen, h.foldl_next, hclose]
  · simp [Scan.joints_cons, Scan.joints_append, hopen, h.foldl_next, h.joints,
      Scan.joint?_of_hidden hfirst, Scan.joint?_of_hidden hlast]

/-- After a balanced text the scanner is where it was. -/
theorem Balanced.foldl_next {P : Char → Prop} {cs : List Char} (h : Balanced P cs) (depth : Nat) :
    cs.foldl Scan.next (Scan.within depth) = Scan.within depth := by
  induction h generalizing depth with
  | nil => rfl
  | plain hc _ _ ih => rw [List.foldl_cons, Scan.next_within_of_isPlain hc, ih]
  | @literal P q body cs hq hbody _ ih =>
    have hquoted := (hbody.quoted hq depth false []).1
    have hcs : q :: (body ++ q :: cs) = q :: (body ++ [q]) ++ cs := by simp
    rw [hcs, List.foldl_append, hquoted, ih]
  | nest ho hc _ _ ihinner ih =>
    rw [List.foldl_cons, List.foldl_append, List.foldl_cons, Scan.next_within_of_isOpening ho,
      ihinner, Scan.next_within_of_isClosing hc, ih]

/-- The joints of two parts, if the first is balanced. -/
theorem Balanced.joints_append {P : Char → Prop} {as : List Char} (h : Balanced P as)
    (depth : Nat) (afterBlank : Bool) (more bs : List Char) :
    (Scan.within depth).joints afterBlank more (as ++ bs) =
      (Scan.within depth).joints afterBlank (bs ++ more) as ++
        (Scan.within depth).joints (endsBlank afterBlank as) more bs := by
  rw [Scan.joints_append, h.foldl_next]

/-- Inside a bracket nothing of a balanced text is a joint. -/
theorem Balanced.joints_inner {P : Char → Prop} {cs : List Char} (h : Balanced P cs)
    (depth : Nat) (afterBlank : Bool) (more : List Char) :
    (Scan.within (depth + 1)).joints afterBlank more cs = [] := by
  induction h generalizing depth afterBlank more with
  | nil => rfl
  | @plain P c cs hc _ _ ih =>
    have hshows : (Scan.within (depth + 1)).shows c = false := by
      simp [Scan.within, Scan.shows, (isPlain_iff.1 hc).2.2]
    rw [Scan.joints_cons, Scan.joint?_of_hidden hshows, Scan.next_within_of_isPlain hc, ih]
    rfl
  | @literal P q body cs hq hbody _ ih =>
    obtain ⟨hnext, hjoints⟩ := hbody.quoted hq (depth + 1) afterBlank (cs ++ more)
    have hcs : q :: (body ++ q :: cs) = q :: (body ++ [q]) ++ cs := by simp
    rw [hcs, Scan.joints_append, hnext, hjoints, ih]
    rfl
  | @nest P o c inner cs ho hc hinner _ ihinner ih =>
    have hopen : (Scan.within (depth + 1)).shows o = false := by
      simp [Scan.within, Scan.shows, (classes_of_isOpening ho).2.2.1]
    have hclose : (Scan.within (depth + 1 + 1)).shows c = false := by
      simp [Scan.within, Scan.shows, hc]
    rw [Scan.joints_cons, Scan.joint?_of_hidden hopen, Scan.next_within_of_isOpening ho,
      hinner.joints_append, ihinner, Scan.joints_cons, Scan.joint?_of_hidden hclose,
      Scan.next_within_of_isClosing hc, ih]
    rfl

/-- Without a sign at top level there is no comparison. -/
theorem Balanced.comparison_not_mem {P : Char → Prop} (hP : ∀ c, P c → isSign c = false)
    {cs : List Char} (h : Balanced P cs) (afterBlank : Bool) (more : List Char) :
    .comparison ∉ (Scan.within 0).joints afterBlank more cs := by
  induction h generalizing afterBlank more with
  | nil => simp
  | @plain P c cs hc hPc _ ih =>
    have hfirst := Scan.joint?_ne_comparison (hP c hPc) (Scan.within 0) afterBlank (cs ++ more)
    rw [Scan.joints_cons, Scan.next_within_of_isPlain hc, List.mem_append, Option.mem_toList]
    rintro (hmem | hmem)
    · exact hfirst hmem
    · exact ih hP _ _ hmem
  | @literal P q body cs hq hbody _ ih =>
    obtain ⟨hnext, hjoints⟩ := hbody.quoted hq 0 afterBlank (cs ++ more)
    have hcs : q :: (body ++ q :: cs) = q :: (body ++ [q]) ++ cs := by simp
    rw [hcs, Scan.joints_append, hnext, hjoints]
    exact ih hP _ _
  | @nest P o c inner cs ho hc hinner _ _ ih =>
    have hopen := Scan.joint?_ne_comparison (isSign_of_isOpening ho) (Scan.within 0) afterBlank
      (inner ++ c :: cs ++ more)
    have hclose := Scan.joint?_ne_comparison (isSign_of_isClosing hc) (Scan.within 1)
      (endsBlank (isBlank o) inner) (cs ++ more)
    rw [Scan.joints_cons, Scan.next_within_of_isOpening ho, hinner.joints_append,
      hinner.joints_inner, Scan.joints_cons, Scan.next_within_of_isClosing hc]
    simp only [List.mem_append, Option.mem_toList, List.not_mem_nil, false_or]
    rintro (hmem | hmem | hmem)
    · exact hopen hmem
    · exact hclose hmem
    · exact ih hP _ _ hmem

/-! ## 4. Joints without two comparisons side by side -/

/-- Of two joints beside each other, one at least is a word. -/
def Sparse (l : List Joint) : Prop := l.IsChain fun a b => a ≠ .comparison ∨ b ≠ .comparison

theorem Sparse.append {l l' : List Joint} (h : Sparse l) (h' : Sparse l')
    (hseam : .comparison ∉ l ∨ .comparison ∉ l') : Sparse (l ++ l') := by
  refine List.IsChain.append h h' fun a ha b hb => ?_
  rcases hseam with hseam | hseam
  · left
    rintro rfl
    exact hseam (List.mem_of_getLast? ha)
  · right
    rintro rfl
    exact hseam (List.mem_of_head? hb)

/-- A word parts what stands on its two sides. -/
theorem Sparse.join {l l' : List Joint} {m : Joint} (h : Sparse l) (h' : Sparse l')
    (hm : m ≠ .comparison) : Sparse (l ++ m :: l') := by
  have hright : Sparse (m :: l') := List.IsChain.cons h' fun _ _ => .inl hm
  refine List.IsChain.append h hright fun _ _ b hb => .inr ?_
  obtain rfl : m = b := by simpa using hb
  exact hm

theorem sparse_of_count_le {l : List Joint} (h : l.count .comparison ≤ 1) : Sparse l := by
  refine List.isChain_iff_forall_rel_of_append_cons_cons.2 fun a b before after hl => ?_
  rw [← not_and_or]
  rintro ⟨rfl, rfl⟩
  rw [hl, List.count_append, List.count_cons_self, List.count_cons_self] at h
  omega

theorem sparse_of_not_mem {l : List Joint} (h : .comparison ∉ l) : Sparse l :=
  sparse_of_count_le (by rw [List.count_eq_zero_of_not_mem h]; omega)

/-- Among joints of which none is a word, there is one at most. -/
theorem Sparse.length_le {l : List Joint} (h : Sparse l) (hall : ∀ m ∈ l, m = .comparison) :
    l.length ≤ 1 := by
  match l, h, hall with
  | [], _, _ => exact Nat.zero_le _
  | [_], _, _ => exact Nat.le_refl _
  | a :: b :: rest, h, hall =>
    rcases (List.isChain_cons_cons.1 h).1 with ha | hb
    · exact absurd (hall a (by simp)) ha
    · exact absurd (hall b (by simp)) hb

/-- What splitting finds are parts without a separator. -/
theorem infix_of_mem_splitOnP {p : Joint → Bool} {l piece : List Joint}
    (h : piece ∈ l.splitOnP p) : piece <:+: l ∧ ∀ m ∈ piece, p m = false := by
  suffices hall : ∃ first rest, l.splitOnP p = first :: rest ∧ first <+: l ∧
      (∀ m ∈ first, p m = false) ∧ ∀ q ∈ rest, q <:+: l ∧ ∀ m ∈ q, p m = false by
    obtain ⟨first, rest, hsplit, hfirst, hp, hrest⟩ := hall
    rw [hsplit, List.mem_cons] at h
    rcases h with rfl | h
    · exact ⟨hfirst.isInfix, hp⟩
    · exact hrest piece h
  clear h
  induction l with
  | nil => exact ⟨[], [], List.splitOnP_nil, List.prefix_rfl, by simp, by simp⟩
  | cons m l ih =>
    obtain ⟨first, rest, hsplit, hfirst, hp, hrest⟩ := ih
    rw [List.splitOnP_cons_eq_if_modifyHead, hsplit]
    split
    · refine ⟨[], first :: rest, rfl, List.nil_prefix, by simp, fun q hq => ?_⟩
      rw [List.mem_cons] at hq
      rcases hq with rfl | hq
      · exact ⟨List.infix_cons hfirst.isInfix, hp⟩
      · exact ⟨List.infix_cons (hrest q hq).1, (hrest q hq).2⟩
    · rename_i hm
      refine ⟨m :: first, rest, rfl, (List.cons_prefix_cons).2 ⟨rfl, hfirst⟩, ?_, fun q hq => ?_⟩
      · intro n hn
        rw [List.mem_cons] at hn
        rcases hn with rfl | hn
        · simpa using hm
        · exact hp n hn
      · exact ⟨List.infix_cons (hrest q hq).1, (hrest q hq).2⟩

end Text

namespace Reading

/-! ## 5. Chains -/

theorem Quiet.head?_ne {cs : List Char} (h : Quiet cs) : cs.head? ≠ some '=' := by
  have hne {c : Char} (hc : isSign c = false) : some c ≠ some '=' := by
    rintro ⟨⟩
    exact absurd hc (by decide)
  cases h with
  | nil => simp
  | plain _ hsign => exact hne hsign
  | literal hq =>
    rintro ⟨⟩
    exact absurd hq (by decide)
  | nest ho => exact hne (isSign_of_isOpening ho)

/-- No operand starts with an equals sign. -/
theorem head?_of_operand {self : Reader} {source cs rest : List Char} {e : Expr}
    (h : operand self source cs = .ok (e, rest)) (more : List Char) :
    (cs ++ more).head? ≠ some '=' := by
  have hlt := length_operand_lt h
  obtain ⟨used, rfl, hused⟩ := spans_operand h
  cases used with
  | nil => exact absurd hlt (Nat.lt_irrefl _)
  | cons c used => simpa using hused.quiet.head?_ne

theorem head?_of_chain {self : Reader} {source cs : List Char} {e : Expr} {allowed : Nat}
    {before : Option (Expr × BinOp)} {compared : Bool}
    (h : chain self source allowed before compared cs = .ok e) (more : List Char) :
    (cs ++ more).head? ≠ some '=' := by
  cases allowed with
  | zero => cases h
  | succ allowed =>
    unfold chain at h
    obtain ⟨⟨first, rest⟩, hfirst, -⟩ := eq_ok_of_bind h
    exact head?_of_operand hfirst more

theorem Quiet.count_eq_zero {cs : List Char} (h : Quiet cs) (afterBlank : Bool)
    (more : List Char) : ((Scan.within 0).joints afterBlank more cs).count .comparison = 0 :=
  List.count_eq_zero_of_not_mem (h.comparison_not_mem (fun _ hc => hc) afterBlank more)

/-- A symbol is one comparison if it compares, and none if it does not. -/
theorem count_symbol {symbol more : List Char} {op : BinOp} (h : (symbol, op) ∈ operatorSymbols)
    (hmore : more.head? ≠ some '=') (afterBlank : Bool) :
    ((Scan.within 0).joints afterBlank more symbol).count .comparison =
      if op.isComparison then 1 else 0 := by
  have hshape : ∀ s ∈ operatorSymbols, s.2.isComparison = true →
      s.1 ∈ [['<'], ['>'], ['=', '='], ['!', '='], ['<', '='], ['>', '=']] := by
    decide
  by_cases hop : op.isComparison = true
  · have hend : (more.head? == some '=') = false := beq_eq_false_iff_ne.2 hmore
    have hcount {c : Char} (hc : isPlain c = true) := count_joint? hc
    have hnext {c : Char} (hc : isPlain c = true) := Scan.next_within_of_isPlain hc 0
    rw [hop]
    have hsymbol := hshape _ h hop
    simp only [List.mem_cons, List.not_mem_nil, or_false] at hsymbol
    rcases hsymbol with rfl | rfl | rfl | rfl | rfl | rfl
    all_goals
      simp (disch := decide) [Scan.joints_cons, List.count_append, hcount, hnext,
        startsComparison, hend]
  · rw [Bool.not_eq_true] at hop
    rw [(quiet_symbol h hop).count_eq_zero, hop]
    rfl

/-- **A chain has one comparison at most**, and none after one that is counted already. -/
theorem count_chain {self : Reader} {source cs : List Char} {e : Expr} {allowed : Nat}
    {before : Option (Expr × BinOp)} {compared : Bool}
    (h : chain self source allowed before compared cs = .ok e) (afterBlank : Bool)
    (more : List Char) :
    ((Scan.within 0).joints afterBlank more cs).count .comparison ≤ if compared then 0 else 1 := by
  induction allowed generalizing before compared cs afterBlank with
  | zero => cases h
  | succ allowed ih =>
    unfold chain at h
    obtain ⟨⟨first, rest⟩, hfirst, h⟩ := eq_ok_of_bind h
    obtain ⟨used, hcs, hused⟩ := spans_operand hfirst
    have hquiet : Quiet used := hused.quiet
    rw [hcs, hquiet.joints_append, List.count_append, hquiet.count_eq_zero, Nat.zero_add]
    cases rest with
    | nil => simp
    | cons c rest =>
      obtain ⟨⟨op, after⟩, hop, h⟩ := eq_ok_of_bind h
      obtain ⟨symbol, hsymbol, htext⟩ := exists_symbol_of_operator (eq_ok_of_blame hop)
      dsimp only at h
      split at h
      · cases h
      · rename_i honce
        have hafter := ih h (endsBlank (endsBlank afterBlank used) symbol)
        rw [htext, (balanced_symbol hsymbol).joints_append, List.count_append,
          count_symbol hsymbol (head?_of_chain h more)]
        cases hc : op.isComparison <;> cases compared <;> simp [hc] at honce hafter ⊢ <;> omega

/-! ## 6. Whole texts -/

/-- Letters make a joint only right after a blank. -/
theorem joints_letters {w : List Char} (h : ∀ c ∈ w, isIdentChar c = true) (more : List Char) :
    (Scan.within 0).joints false more w = [] := by
  induction w with
  | nil => rfl
  | cons c w ih =>
    have hc := h c (by simp)
    have hjoint : (Scan.within 0).joint? false c (w ++ more) = none := by
      simp [Scan.joint?, startsComparison_of_not_sign (isSign_of_isIdentChar hc)]
    rw [Scan.joints_cons, hjoint, Scan.next_within_of_isPlain (isPlain_of_isIdentChar hc),
      isBlank_of_isIdentChar hc, ih fun d hd => h d (by simp [hd])]
    rfl

theorem joints_word {w : List Char} (h : IsWord w) (more : List Char) :
    (Scan.within 0).joints true more w = (wordJoint? (w ++ more)).toList := by
  obtain ⟨hne, hall⟩ := h
  cases w with
  | nil => exact absurd rfl hne
  | cons c w =>
    have hc := hall c (by simp)
    have hplain := isPlain_of_isIdentChar hc
    have hjoint : (Scan.within 0).joint? true c (w ++ more) = wordJoint? (c :: (w ++ more)) := by
      simp [Scan.joint?, Scan.shows_within_of_isPlain hplain,
        startsComparison_of_not_sign (isSign_of_isIdentChar hc)]
    rw [Scan.joints_cons, hjoint, Scan.next_within_of_isPlain hplain, isBlank_of_isIdentChar hc,
      joints_letters fun d hd => hall d (by simp [hd]), List.append_nil]
    rfl

/-- A word that joins two texts is a joint, and no comparison. -/
theorem exists_joints_of_isCutWord {w : List Char} {c : Char} (hw : IsCutWord w)
    (hc : isBlank c = true) (rest : List Char) :
    ∃ m, m ≠ .comparison ∧ (Scan.within 0).joints true (c :: rest) w = [m] := by
  have hjoints {w : List Char} (hw : IsWord w) := joints_word hw (c :: rest)
  rcases hw with rfl | rfl | rfl
  · refine ⟨.or, by decide, ?_⟩
    rw [hjoints (by decide)]
    simp [wordJoint?, startsWithWord, hc]
  · refine ⟨.and, by decide, ?_⟩
    rw [hjoints (by decide)]
    simp [wordJoint?, startsWithWord, hc]
  · refine ⟨.member, by decide, ?_⟩
    rw [hjoints (by decide)]
    simp [wordJoint?, startsWithWord, hc]

/-- A balanced text in which no two comparisons stand side by side, whatever stands around it. -/
structure Spaced (cs : List Char) : Prop where
  balanced : Balanced (fun _ => True) cs
  sparse : ∀ (afterBlank : Bool) (more : List Char),
    Sparse ((Scan.within 0).joints afterBlank more cs)

theorem Wordy.comparison_not_mem {cs : List Char} (h : Wordy cs) (afterBlank : Bool)
    (more : List Char) : .comparison ∉ (Scan.within 0).joints afterBlank more cs :=
  h.quiet.comparison_not_mem (fun _ hc => hc) afterBlank more

theorem compositional_spaced : Compositional Spaced where
  chain h :=
    { balanced := (exprText_of_chain h).mono fun _ _ => trivial
      sparse := fun afterBlank more => sparse_of_count_le (count_chain h afterBlank more) }
  wordy_append {as bs} ha hb := by
    refine ⟨ha.balanced.append hb.balanced, fun afterBlank more => ?_⟩
    have hword := ha.comparison_not_mem afterBlank (bs ++ more)
    rw [ha.balanced.joints_append]
    exact (sparse_of_not_mem hword).append (hb.sparse _ _) (.inl hword)
  append_wordy {as bs} ha hb := by
    refine ⟨ha.balanced.append hb.balanced, fun afterBlank more => ?_⟩
    have hword := hb.comparison_not_mem (endsBlank afterBlank as) more
    rw [ha.balanced.joints_append]
    exact (ha.sparse _ _).append (sparse_of_not_mem hword) (.inr hword)
  join {w as bs b c} hw hb hc has hbs := by
    have hword : Balanced (fun _ => True) w := (wordy_of_isCutWord hw).balanced
    refine ⟨(has.balanced.append hword).append hbs.balanced, fun afterBlank more => ?_⟩
    obtain ⟨m, hm, hjoint⟩ := exists_joints_of_isCutWord hw hc (bs ++ more)
    rw [List.append_assoc, has.balanced.joints_append, hword.joints_append, endsBlank_concat, hb,
      List.cons_append, hjoint]
    exact (has.sparse _ _).join (hbs.sparse _ _) hm

end Reading

/-- **In a text that is read no two comparison signs stand side by side.** -/
theorem Accepted.sparse {cs : List Char} (h : Accepted cs) : Sparse (joints cs) :=
  (compositional_spaced.of_accepted h).sparse false []

/-! ## 7. The comparisons of an expression -/

namespace Target

/-- **In an expression that compiles a piece has at most one comparison between two membership
tests**, and so it has one at most if no membership test is in it.  A piece has more than one
exactly if a membership test in it is not alone. -/
theorem comparisons_of_compileExpr {scope : Scope} {cs : List Char} {code : Code}
    (h : compileExpr scope cs = .ok code) {piece : List Joint} (hpiece : piece ∈ pieces cs) :
    (∀ run, run <:+: piece → .member ∉ run → run.length ≤ 1) ∧
      (piece.length ≤ 1 ↔ (.member ∈ piece → piece = [.member])) := by
  obtain ⟨e, hread⟩ := read_of_compileExpr h
  have hsparse := (Expr.accepted_of_read hread).sparse
  obtain ⟨hpart, hconnective⟩ := infix_of_mem_splitOnP hpiece
  have hruns : ∀ run, run <:+: piece → .member ∉ run → run.length ≤ 1 := by
    intro run hrun hmember
    have hrunSparse : Sparse run := hsparse.infix (hrun.trans hpart)
    refine hrunSparse.length_le fun m hm => ?_
    have hm' := hconnective m (hrun.subset hm)
    cases m with
    | or => cases hm'
    | and => cases hm'
    | member => exact absurd hm hmember
    | comparison => rfl
  refine ⟨hruns, ?_⟩
  constructor
  · intro hlength hmember
    obtain ⟨m, rfl⟩ := List.length_eq_one_iff.1
      (Nat.le_antisymm hlength (List.length_pos_of_mem hmember))
    obtain rfl : .member = m := by simpa using hmember
    rfl
  · intro halone
    by_cases hmember : .member ∈ piece
    · rw [halone hmember]
      exact Nat.le_refl _
    · exact hruns piece List.infix_rfl hmember

/-- The theorem at an expression with three pieces, the first of them behind a `not`. -/
theorem comparisons_of_compileExpr_pieces :
    ∃ code, compileExpr ⟨[], []⟩ "not a == (b < c) and d not in e or f <= 1".toList = .ok code ∧
      [.comparison] ∈ pieces "not a == (b < c) and d not in e or f <= 1".toList ∧
      ([Joint.comparison].length ≤ 1 ↔ (.member ∈ [Joint.comparison] →
        [Joint.comparison] = [.member])) := by
  have hsome : (compileExpr ⟨[], []⟩
      "not a == (b < c) and d not in e or f <= 1".toList).toOption.isSome = true := by
    decide +kernel
  have hpiece : [Joint.comparison] ∈ pieces "not a == (b < c) and d not in e or f <= 1".toList := by
    decide +kernel
  obtain ⟨code, hcode⟩ := eq_ok_of_isSome hsome
  exact ⟨code, hcode, hpiece, (comparisons_of_compileExpr hcode hpiece).2⟩

/-- Two membership tests in one piece are not refused: the second is made the container of the
first. -/
theorem compileExpr_chained_in :
    (compileExpr ⟨[], []⟩ "a in b in c".toList).toOption =
        some (.contains
          (.convert (.contains (.convert (.free "c".toList)) (.convert (.free "b".toList))))
          (.convert (.free "a".toList))) ∧
      pieces "a in b in c".toList = [[.member, .member]] :=
  ⟨by decide +kernel, by decide +kernel⟩

end Target

end TemplateCompiler
