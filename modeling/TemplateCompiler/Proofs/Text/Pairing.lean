import TemplateCompiler.Proofs.Text.Balanced

/-! # Which bracket closes which

The scanners count brackets and do not look at their kinds.  This module says what a text is made of
if a scanner got through it, and what that means for the brackets as they are written.

`bracketPairs?` pairs every closing bracket with the last one that is open, by a stack.  There is no
answer if a bracket closes nothing, or if a bracket or a literal stays open.  `WellMatched` asks in
addition that the two brackets of a pair are of one kind.

* `balanced_of_matchingClose`: what stands inside a bracket that is closed is balanced;
* `Balanced.bracketPairs?`: the brackets of a balanced text can be paired.
-/

namespace TemplateCompiler.Text

/-! ## 1. Pairs of brackets -/

/-- The pairs of brackets in a text, given the brackets that are open before it, the last one
first. -/
def pairsFrom (l : Literal) (opened : List Char) : List Char → Option (List (Char × Char))
  | [] => if l = .outside ∧ opened = [] then some [] else none
  | c :: rest =>
    if l = .outside ∧ isOpening c then pairsFrom .outside (c :: opened) rest
    else if l = .outside ∧ isClosing c then
      match opened with
      | [] => none
      | o :: opened => (pairsFrom .outside opened rest).map ((o, c) :: ·)
    else pairsFrom (l.next c) opened rest

/-- The pairs of brackets in a text outside its literals, in the order in which they are closed. -/
def bracketPairs? (cs : List Char) : Option (List (Char × Char)) := pairsFrom .outside [] cs

/-- Whether two brackets are of one kind. -/
def sameKind (p : Char × Char) : Bool := [('(', ')'), ('[', ']'), ('{', '}')].contains p

/-- Every bracket is closed by one of its kind, and every literal is closed. -/
def WellMatched (cs : List Char) : Prop :=
  ∃ pairs, bracketPairs? cs = some pairs ∧ ∀ p ∈ pairs, sameKind p = true

theorem pairsFrom_of_isPlain {c : Char} (hc : isPlain c = true) (opened rest : List Char) :
    pairsFrom .outside opened (c :: rest) = pairsFrom .outside opened rest := by
  obtain ⟨hq, ho, hcl⟩ := isPlain_iff.1 hc
  simp [pairsFrom, ho, hcl, Literal.next, hq]

theorem pairsFrom_of_isOpening {o : Char} (ho : isOpening o = true) (opened rest : List Char) :
    pairsFrom .outside opened (o :: rest) = pairsFrom .outside (o :: opened) rest := by
  rw [pairsFrom.eq_def]
  simp [ho]

theorem pairsFrom_of_isClosing {o c : Char} (hc : isClosing c = true) (opened rest : List Char) :
    pairsFrom .outside (o :: opened) (c :: rest) =
      (pairsFrom .outside opened rest).map ((o, c) :: ·) := by
  obtain ⟨-, -, ho, -⟩ := classes_of_isClosing hc
  rw [pairsFrom, if_neg (by simp [ho]), if_pos ⟨rfl, hc⟩]

/-- In a literal there are no brackets. -/
theorem pairsFrom_literalBody {q : Char} {body : List Char} (h : LiteralBody q body)
    (opened rest : List Char) :
    pairsFrom (.inside q) opened (body ++ rest) = pairsFrom (.inside q) opened rest := by
  induction h with
  | nil => rfl
  | plain hc hq _ ih => simp [pairsFrom, Literal.next, hc, hq, ih]
  | escape _ ih => simp [pairsFrom, Literal.next, ih]

theorem pairsFrom_literal {q : Char} (hq : isQuote q = true) {body : List Char}
    (h : LiteralBody q body) (opened rest : List Char) :
    pairsFrom .outside opened (q :: (body ++ q :: rest)) = pairsFrom .outside opened rest := by
  obtain ⟨-, ho, hc, -, hb⟩ := classes_of_isQuote hq
  have hstart : pairsFrom .outside opened (q :: (body ++ q :: rest)) =
      pairsFrom (.inside q) opened (body ++ q :: rest) := by
    simp [pairsFrom, ho, hc, Literal.next, hq]
  rw [hstart, pairsFrom_literalBody h]
  simp [pairsFrom, Literal.next, hb]

/-- **A balanced text adds its pairs and leaves the open brackets as they are.** -/
theorem Balanced.pairsFrom {P : Char → Prop} {cs : List Char} (h : Balanced P cs) :
    ∃ pairs, ∀ opened rest, pairsFrom .outside opened (cs ++ rest) =
      (Text.pairsFrom .outside opened rest).map (pairs ++ ·) := by
  induction h with
  | nil => exact ⟨[], fun opened rest => by simp⟩
  | plain hc _ _ ih =>
    obtain ⟨pairs, hpairs⟩ := ih
    refine ⟨pairs, fun opened rest => ?_⟩
    rw [List.cons_append, pairsFrom_of_isPlain hc, hpairs]
  | literal hq hbody _ ih =>
    obtain ⟨pairs, hpairs⟩ := ih
    refine ⟨pairs, fun opened rest => ?_⟩
    rw [List.cons_append, List.append_assoc, List.cons_append, pairsFrom_literal hq hbody, hpairs]
  | @nest P o c inner cs ho hc _ _ ih₁ ih₂ =>
    obtain ⟨inside, hinside⟩ := ih₁
    obtain ⟨pairs, hpairs⟩ := ih₂
    refine ⟨inside ++ (o, c) :: pairs, fun opened rest => ?_⟩
    rw [List.cons_append, List.append_assoc, List.cons_append, pairsFrom_of_isOpening ho, hinside,
      pairsFrom_of_isClosing hc, hpairs]
    cases Text.pairsFrom .outside opened rest <;> simp

/-- **The brackets of a balanced text can be paired.** -/
theorem Balanced.bracketPairs? {P : Char → Prop} {cs : List Char} (h : Balanced P cs) :
    ∃ pairs, bracketPairs? cs = some pairs := by
  obtain ⟨pairs, hpairs⟩ := h.pairsFrom
  refine ⟨pairs, ?_⟩
  have hend := hpairs [] []
  rw [List.append_nil] at hend
  rw [Text.bracketPairs?, hend]
  simp [Text.pairsFrom]

/-! ## 2. What a scanner got through -/

/-- From inside a literal: the literal is closed, and the search goes on after it. -/
theorem literalBody_of_closeFrom {q : Char} {depth : Nat} {cs inner after : List Char}
    (h : closeFrom (.inside q) depth cs = some (inner, after)) :
    ∃ body more inside, LiteralBody q body ∧ cs = body ++ q :: more ∧ inner = body ++ q :: inside ∧
      closeFrom .outside depth more = some (inside, after) := by
  induction hn : cs.length using Nat.strongRecOn generalizing cs inner with
  | _ n ih =>
    subst hn
    cases cs with
    | nil => cases h
    | cons c cs =>
      rw [closeFrom_cons, if_neg (by simp)] at h
      obtain ⟨⟨x, y⟩, hx, he⟩ := Option.map_eq_some_iff.1 h
      cases he
      by_cases hc : c = '\\'
      · subst hc
        cases cs with
        | nil => cases hx
        | cons d cs =>
          simp only [Literal.next, if_true] at hx
          rw [closeFrom_cons, if_neg (by simp)] at hx
          obtain ⟨⟨x', y'⟩, hx', he⟩ := Option.map_eq_some_iff.1 hx
          cases he
          obtain ⟨body, more, inside, hbody, rfl, rfl, hclose⟩ :=
            ih cs.length (by simp only [List.length_cons]; omega) hx' rfl
          exact ⟨'\\' :: d :: body, more, inside, .escape hbody, rfl, rfl, hclose⟩
      by_cases hq : c = q
      · subst hq
        simp only [Literal.next, if_neg hc, if_true] at hx
        exact ⟨[], cs, x, .nil, rfl, rfl, hx⟩
      · simp only [Literal.next, if_neg hc, if_neg hq] at hx
        obtain ⟨body, more, inside, hbody, rfl, rfl, hclose⟩ :=
          ih cs.length (by simp only [List.length_cons]; omega) hx rfl
        exact ⟨c :: body, more, inside, .plain hc hq hbody, rfl, rfl, hclose⟩

theorem Literal.depthAfter_of_not_closing {l : Literal} {c : Char}
    (h : ¬ (l = .outside ∧ isClosing c = true)) (inner outer : Nat) :
    l.depthAfter (inner + outer) c = l.depthAfter inner c + outer ∧
      inner ≤ l.depthAfter inner c := by
  unfold Literal.depthAfter
  by_cases hl : l = .outside
  · have hc : ¬ isClosing c = true := fun hc => h ⟨hl, hc⟩
    rw [if_pos hl, if_pos hl]
    by_cases ho : isOpening c = true
    · rw [if_pos ho, if_pos ho]
      omega
    · rw [if_neg ho, if_neg ho, if_neg hc, if_neg hc]
      omega
  · rw [if_neg hl, if_neg hl]
    omega

theorem closeFrom_of_isClosing {c : Char} (hc : isClosing c = true) (depth : Nat)
    (rest : List Char) :
    closeFrom .outside (depth + 1) (c :: rest) =
      if depth = 0 then some ([], rest) else prepend [c] (closeFrom .outside depth rest) := by
  obtain ⟨-, hq, ho, -⟩ := classes_of_isClosing hc
  rw [closeFrom_cons]
  simp [Literal.depthAfter, Literal.next, ho, hc, hq]

theorem closeFrom_of_not_closing {l : Literal} {c : Char}
    (h : ¬ (l = .outside ∧ isClosing c = true)) (depth : Nat) (rest : List Char) :
    closeFrom l depth (c :: rest) =
      prepend [c] (closeFrom (l.next c) (l.depthAfter depth c) rest) := by
  rw [closeFrom_cons, if_neg]
  simp only [Bool.and_eq_true, decide_eq_true_eq]
  exact fun hstop => h hstop.1

/-- From inside more brackets: the inner ones are closed first. -/
theorem closeFrom_add {l : Literal} {inner outer : Nat} {cs found after : List Char}
    (hinner : 0 < inner) (h : closeFrom l (inner + (outer + 1)) cs = some (found, after)) :
    ∃ first c more later, isClosing c = true ∧ closeFrom l inner cs = some (first, more) ∧
      cs = first ++ c :: more ∧ closeFrom .outside (outer + 1) more = some (later, after) ∧
      found = first ++ c :: later := by
  induction cs generalizing l inner found with
  | nil => cases h
  | cons c cs ih =>
    by_cases hclosing : l = .outside ∧ isClosing c = true
    · obtain ⟨rfl, hc⟩ := hclosing
      rw [← Nat.add_assoc, closeFrom_of_isClosing hc, if_neg (by omega)] at h
      obtain ⟨⟨x, y⟩, hx, he⟩ := Option.map_eq_some_iff.1 h
      cases he
      obtain ⟨depth, rfl⟩ : ∃ depth, inner = depth + 1 := ⟨inner - 1, by omega⟩
      rw [closeFrom_of_isClosing hc]
      by_cases hdepth : depth = 0
      · subst hdepth
        rw [Nat.zero_add, Nat.add_comm 1 outer] at hx
        exact ⟨[], c, cs, x, hc, rfl, rfl, hx, rfl⟩
      · rw [show depth + 1 + outer = depth + (outer + 1) by omega] at hx
        obtain ⟨first, d, more, later, hd, hfirst, rfl, hlater, rfl⟩ := ih (by omega) hx
        refine ⟨c :: first, d, more, later, hd, ?_, rfl, hlater, rfl⟩
        rw [if_neg hdepth, hfirst]
        rfl
    · obtain ⟨hadd, hle⟩ := Literal.depthAfter_of_not_closing hclosing inner (outer + 1)
      rw [closeFrom_of_not_closing hclosing, hadd] at h
      obtain ⟨⟨x, y⟩, hx, he⟩ := Option.map_eq_some_iff.1 h
      cases he
      obtain ⟨first, d, more, later, hd, hfirst, rfl, hlater, rfl⟩ := ih (by omega) hx
      refine ⟨c :: first, d, more, later, hd, ?_, rfl, hlater, rfl⟩
      rw [closeFrom_of_not_closing hclosing, hfirst]
      rfl

/-- **What stands inside a bracket that is closed is balanced.** -/
theorem balanced_of_matchingClose {cs inner after : List Char}
    (h : matchingClose cs = some (inner, after)) :
    Balanced (fun _ => True) inner ∧ ∃ c, isClosing c = true ∧ cs = inner ++ c :: after := by
  unfold matchingClose at h
  induction hn : cs.length using Nat.strongRecOn generalizing cs inner after with
  | _ n ih =>
    subst hn
    cases cs with
    | nil => cases h
    | cons c cs =>
      have hshorter {ds : List Char} (hle : ds.length ≤ cs.length) :
          ds.length < (c :: cs).length := by
        simp only [List.length_cons]
        omega
      by_cases hc : isClosing c = true
      · rw [closeFrom_of_isClosing hc 0, if_pos rfl] at h
        cases h
        exact ⟨.nil, c, hc, rfl⟩
      rw [closeFrom_of_not_closing fun hclosing => hc hclosing.2] at h
      obtain ⟨⟨x, y⟩, hx, he⟩ := Option.map_eq_some_iff.1 h
      cases he
      by_cases ho : isOpening c = true
      · obtain ⟨-, hq, -, -⟩ := classes_of_isOpening ho
        have hdepth : Literal.outside.depthAfter 1 c = 1 + (0 + 1) := by
          simp [Literal.depthAfter, ho]
        have hnext : Literal.outside.next c = .outside := by simp [Literal.next, hq]
        rw [hdepth, hnext] at hx
        obtain ⟨first, d, more, later, hd, hfirst, rfl, hlater, rfl⟩ :=
          closeFrom_add (Nat.succ_pos 0) hx
        obtain ⟨hin, -⟩ := ih _ (hshorter (Nat.le_refl _)) hfirst rfl
        obtain ⟨hmore, e, he, rfl⟩ := ih _ (hshorter (by simp; omega)) hlater rfl
        exact ⟨.nest ho hd hin hmore, e, he, by simp⟩
      · rw [Bool.not_eq_true] at hc ho
        have hdepth : Literal.outside.depthAfter 1 c = 1 := by
          simp [Literal.depthAfter, ho, hc]
        rw [hdepth] at hx
        by_cases hq : isQuote c = true
        · rw [Literal.next, if_pos hq] at hx
          obtain ⟨body, more, inside, hbody, rfl, rfl, hclose⟩ := literalBody_of_closeFrom hx
          obtain ⟨hmore, e, he, rfl⟩ := ih _ (hshorter (by simp; omega)) hclose rfl
          exact ⟨.literal hq hbody hmore, e, he, by simp⟩
        · rw [Bool.not_eq_true] at hq
          rw [Literal.next, hq] at hx
          obtain ⟨hmore, e, he, rfl⟩ := ih _ (hshorter (Nat.le_refl _)) hx rfl
          exact ⟨.plain (isPlain_iff.2 ⟨hq, ho, hc⟩) trivial hmore, e, he, by simp⟩

end TemplateCompiler.Text
