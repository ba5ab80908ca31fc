import TemplateCompiler.Proofs.Expr.Bracketed
import TemplateCompiler.Proofs.Expr.Comparisons
import TemplateCompiler.Proofs.Text.Spacing

/-! # Spacing does not matter

Main statement: two texts that are equal up to the blanks outside of their literals compile to the
same code, or neither of them compiles (`compileExpr_spacing`).  Blanks count between words, and in
the sense that there are some; how many there are, and which, does not matter.

The texts are compared by their squeezed forms, in which one blank stands for every run of blanks.
It is enough that an expression is read as its squeezed form is (`Expr.read_squeeze`).  The readers
go over both texts side by side: each finds the same in both, and leaves the squeezed form of what
it leaves of the text (`squeezeRest`).  Only the texts in refusals differ, so success and result are
compared and no more (`Follows`).

* A literal is not squeezed, so its body is found as it is (`stringBody?_squeeze`).
* Numbers and words end at a blank, and one blank is as good as several (`number_squeeze`,
  `word_squeeze`).
* What stands in brackets is a text of its own.  There the reader of inner texts is used, which is
  only known to be blind for shorter texts (`Blind`); the theorem about `Expr.read` is an induction
  on the length.
* Cutting at words and finding closing brackets are scans over the whole text; that they find the
  same places is shown in `Text.Spacing`.
-/

namespace TemplateCompiler

open Text

/-! ## 1. Computations side by side -/

section Follows

variable {α β γ δ ε ε' : Type}

/-- The second computation succeeds if and only if the first does, and then with the image of its
result. -/
def Follows (f : α → β) (r : Except ε α) (r' : Except ε' β) : Prop :=
  r'.toOption = r.toOption.map f

theorem follows_ok (f : α → β) (a : α) :
    Follows f (.ok a : Except ε α) (.ok (f a) : Except ε' β) := rfl

theorem follows_error (f : α → β) (e : ε) (e' : ε') : Follows f (.error e) (.error e') := rfl

/-- A result that is only changed follows the first one. -/
theorem follows_map (f : α → β) (r : Except ε α) : Follows f r (r.map f) := by
  cases r <;> rfl

/-- **Two steps side by side.**  If the first steps follow each other and so do the second ones,
from every result that the first step can have, then the computations do. -/
theorem Follows.bind {f : α → β} {g : γ → δ} {r : Except ε α} {r' : Except ε' β}
    {k : α → Except ε γ} {k' : β → Except ε' δ} (h : Follows f r r')
    (hk : ∀ a, r = .ok a → Follows g (k a) (k' (f a))) : Follows g (r >>= k) (r' >>= k') := by
  cases r with
  | error e =>
    cases r' with
    | error e' => rfl
    | ok b => cases h
  | ok a =>
    obtain rfl : r' = .ok (f a) := eq_ok_of_toOption h
    exact hk a rfl

/-- The same, if the first steps have the same result. -/
theorem Follows.bind_id {g : γ → δ} {r : Except ε α} {r' : Except ε' α}
    {k : α → Except ε γ} {k' : α → Except ε' δ} (h : Follows id r r')
    (hk : ∀ a, Follows g (k a) (k' a)) : Follows g (r >>= k) (r' >>= k') :=
  h.bind fun a _ => hk a

end Follows

/-- What is left of a text, squeezed. -/
def squeezeRest {α : Type} (p : α × List Char) : α × List Char := (p.1, squeeze p.2)

namespace Reading

/-- The texts in a refusal may differ, since only success and result are compared. -/
theorem follows_blame {α β : Type} {f : α → β} {r : Except Fault α} {r' : Except Fault β}
    (source source' : List Char) (h : Follows f r r') :
    Follows f (blame source r) (blame source' r') := by
  have htoOption {γ : Type} (source : List Char) (r : Except Fault γ) :
      (blame source r).toOption = r.toOption := by
    cases r <;> rfl
  rw [Follows, htoOption, htoOption]
  exact h

/-! ## 2. Literals -/

/-- A blank is no character of a name, so no word goes on across blanks. -/
theorem solidClass_isIdentChar : SolidClass isIdentChar := fun _ => isSolid_of_isIdentChar

theorem solidClass_isDigit : SolidClass Char.isDigit := fun _ h =>
  isSolid_of_isIdentChar (isIdentChar_of_isDigit h)

/-- Nor does a number. -/
theorem solidClass_isDigitOrUnderscore : SolidClass isDigitOrUnderscore := by
  intro c h
  simp only [isDigitOrUnderscore, Bool.or_eq_true, beq_iff_eq] at h
  rcases h with h | rfl
  · exact solidClass_isDigit c h
  · decide

/-- The body of a literal is the same in both texts: nothing is squeezed in a literal, not even
behind a backslash. -/
theorem stringBody?_squeeze (q : Char) (cs : List Char) :
    stringBody? q ((Literal.inside q).squeeze cs) = (stringBody? q cs).map squeezeRest := by
  have hstep (l : Literal) (c : Char) (rest : List Char) (hl : l ≠ .outside) :
      l.squeeze (c :: rest) = c :: (l.next c).squeeze rest :=
    Literal.squeeze_kept (fun h => absurd h hl) rest
  fun_induction stringBody? q cs with
  | case1 => rfl
  | case2 => rfl
  | case3 d rest ih =>
    have hpair : (Literal.inside q).squeeze ('\\' :: d :: rest) =
        '\\' :: d :: (Literal.inside q).squeeze rest := by
      rw [hstep _ _ _ (by simp), hstep _ _ _ (by simp [Literal.next])]
      rfl
    rw [hpair, stringBody?, if_pos rfl]
    dsimp only
    rw [ih]
    cases stringBody? q rest <;> rfl
  | case4 rest hq =>
    rw [hstep _ _ _ (by simp), stringBody?_cons hq, if_pos rfl]
    simp [Literal.next, hq, squeezeRest, squeeze]
  | case5 c rest hc hq ih =>
    have hnext : (Literal.inside q).next c = .inside q := by simp [Literal.next, hc, hq]
    rw [hstep _ _ _ (by simp), hnext, stringBody?_cons hc, if_neg hq, ih]
    cases stringBody? q rest <;> rfl

/-- There is a fraction exactly at a point with a digit behind it. -/
theorem fraction?_cons (c : Char) (rest : List Char) :
    fraction? (c :: rest) =
      if c = '.' ∧ rest.head?.any Char.isDigit = true then
        some (rest.takeWhile isDigitOrUnderscore, rest.dropWhile isDigitOrUnderscore)
      else none := by
  by_cases hc : c = '.'
  · subst hc
    cases rest <;> simp [fraction?]
  · simp [fraction?, hc]

/-- A blank between the point and the digit stays a blank, so there is a fraction in both texts or
in none. -/
theorem fraction?_squeeze (cs : List Char) :
    fraction? (squeeze cs) = (fraction? cs).map squeezeRest := by
  cases cs with
  | nil => rfl
  | cons c rest =>
    rcases squeeze_cons c rest with ⟨-, heq⟩ | ⟨hc, d, more, hd, heq⟩
    · obtain ⟨htake, hdrop⟩ := solidClass_isDigitOrUnderscore.span rest
      rw [heq, fraction?_cons, fraction?_cons, solidClass_isDigit.any_head?, htake, hdrop]
      split <;> rfl
    · have hcdot := ne_of_not_solid '.' hc (by decide)
      have hddot := ne_of_not_solid '.' hd (by decide)
      simp [heq, fraction?_cons, hcdot, hddot]

theorem signPart_squeeze (cs : List Char) : signPart (squeeze cs) = squeezeRest (signPart cs) := by
  cases cs with
  | nil => rfl
  | cons c rest =>
    rcases squeeze_cons c rest with ⟨-, heq⟩ | ⟨hc, d, more, hd, heq⟩
    · rw [heq, signPart, signPart]
      split <;> simp [squeezeRest, heq]
    · have hkept {c : Char} (hc : isSolid c = false) : ¬(c = '+' ∨ c = '-') := by
        rintro (rfl | rfl) <;> exact absurd hc (by decide)
      simp [heq, signPart, hkept hc, hkept hd, squeezeRest]

theorem startsWithDigit_squeeze (cs : List Char) :
    startsWithDigit (squeeze cs) = startsWithDigit cs := by
  have hhead (cs : List Char) : startsWithDigit cs = cs.head?.any Char.isDigit := by
    cases cs <;> rfl
  rw [hhead, hhead, solidClass_isDigit.any_head?]

/-- The same for the power of ten, with or without a sign. -/
theorem power?_squeeze (cs : List Char) :
    power? (squeeze cs) =
      (power? cs).map fun (mark, power, rest) => (mark, power, squeeze rest) := by
  cases cs with
  | nil => rfl
  | cons e rest =>
    rcases squeeze_cons e rest with ⟨-, heq⟩ | ⟨hc, d, more, hd, heq⟩
    · obtain ⟨htake, hdrop⟩ := solidClass_isDigit.span (signPart rest).2
      rw [heq, power?, power?, signPart_squeeze]
      dsimp only [squeezeRest]
      rw [startsWithDigit_squeeze, htake, hdrop]
      split <;> rfl
    · have hkept {c : Char} (hc : isSolid c = false) : ¬(c = 'e' ∨ c = 'E') := by
        rintro (rfl | rfl) <;> exact absurd hc (by decide)
      simp [heq, power?, hkept hc, hkept hd]

/-- **A number is the same in both texts**, whether it has a fraction, a power, both or neither. -/
theorem number_squeeze (cs : List Char) : number (squeeze cs) = (number cs).map squeezeRest := by
  have hmap (r : Except Fault Expr) (rest : List Char) :
      r.map (·, squeeze rest) = (r.map (·, rest)).map squeezeRest := by cases r <;> rfl
  obtain ⟨htake, hdrop⟩ := solidClass_isDigitOrUnderscore.span cs
  unfold number
  dsimp only
  rw [htake, hdrop, fraction?_squeeze, power?_squeeze]
  cases fraction? (cs.dropWhile isDigitOrUnderscore) with
  | none =>
    cases power? (cs.dropWhile isDigitOrUnderscore) <;> exact hmap _ _
  | some p =>
    dsimp only [Option.map_some, squeezeRest]
    rw [power?_squeeze]
    cases power? p.2 <;> exact hmap _ _

/-! ## 3. Words -/

/-- A parenthesis that opens a call may have blanks before it, which do not count either. -/
theorem callFollows_squeeze (rest : List Char) :
    callFollows (squeeze rest) = callFollows rest := by
  have hparen : SolidClass (· == '(') := by
    intro c h
    obtain rfl : c = '(' := by simpa using h
    decide
  have hhead (cs : List Char) : (cs.head? == some '(') = cs.head?.any (· == '(') := by
    cases cs <;> simp
  rw [callFollows, callFollows, trimStart_squeeze, hhead, hhead, hparen.any_head?]

/-- **A word is the same in both texts**, a constant, a name or one that is refused. -/
theorem word_squeeze (cs : List Char) : word (squeeze cs) = (word cs).map squeezeRest := by
  obtain ⟨htake, hdrop⟩ := solidClass_isIdentChar.span cs
  unfold word
  dsimp only
  rw [htake, hdrop, callFollows_squeeze]
  split
  · rfl
  split
  · rfl
  split <;> rfl

/-- A keyword at the start needs something behind it that does not go on the word; one blank is as
good as several. -/
theorem afterKeyword?_squeeze {w : List Char} (hw : IsWord w) (cs : List Char) :
    afterKeyword? w (squeeze cs) = (afterKeyword? w cs).map squeeze := by
  obtain ⟨hstarts, hdrop⟩ := isPrefixOf_squeeze (fun c hc => isSolid_of_isIdentChar (hw.2 c hc)) cs
  unfold afterKeyword?
  rw [hstarts]
  split
  · rename_i h
    dsimp only
    rw [hdrop h, any_head?_squeeze fun c hc => by simp [hc, isBlank_space],
      trim_squeeze]
    split <;> rfl
  · rfl

/-- Blanks after the point of an attribute are skipped. -/
theorem attributeAfter_squeeze (subject : Expr) (rest : List Char) :
    attributeAfter subject (squeeze rest) = (attributeAfter subject rest).map squeezeRest := by
  obtain ⟨htake, hdrop⟩ := solidClass_isIdentChar.span rest
  unfold attributeAfter
  dsimp only
  rw [htake, hdrop, callFollows_squeeze]
  split
  · rfl
  split
  · rfl
  split
  · split <;> rfl
  · rfl

/-! ## 4. Operands -/

/-- A reader that gives the same for short texts and their squeezed forms. -/
def Blind (bound : Nat) (self : Reader) : Prop :=
  ∀ t : List Char, t.length < bound → Follows id (self t) (self (squeeze t))

/-- A reader that is blind for longer texts is so for shorter ones. -/
theorem Blind.mono {m n : Nat} {self : Reader} (h : Blind n self) (hmn : m ≤ n) : Blind m self :=
  fun t ht => h t (Nat.lt_of_lt_of_le ht hmn)

/-- Signs may have blanks between them and before them. -/
theorem signs_trimStart (cs : List Char) : signs (trimStart cs) = signs cs := by
  induction cs with
  | nil => rfl
  | cons c rest ih =>
    by_cases hc : isBlank c = true
    · rw [trimStart_cons_of_blank rest hc, ih, signs, if_pos hc]
    · rw [trimStart_cons_of_not_blank rest (by simpa using hc)]

/-- All signs before an operand are taken, in both texts the same number of each kind. -/
theorem signs_squeeze (cs : List Char) : signs (squeeze cs) = squeezeRest (signs cs) := by
  induction hn : cs.length using Nat.strongRecOn generalizing cs with
  | ind n ih =>
    subst hn
    cases cs with
    | nil => rfl
    | cons c rest =>
      by_cases hc : isBlank c = true
      · have hlength := length_trimStart_le rest
        have hrest := ih _ (by simp only [List.length_cons]; omega) (trimStart rest) rfl
        rw [squeeze_blank hc, signs, if_pos isBlank_space, hrest, signs_trimStart, signs, if_pos hc]
      · rw [Bool.not_eq_true] at hc
        by_cases hsign : c = '-' ∨ c = '+'
        · have hsolid : isSolid c = true := by rcases hsign with rfl | rfl <;> decide
          have hrest := ih _ (by simp) rest rfl
          have hstep (cs : List Char) : signs (c :: cs) = (c :: (signs cs).1, (signs cs).2) := by
            rw [signs, if_neg (by simp [hc]), if_pos hsign]
          rw [squeeze_solid hsolid, hstep, hstep, hrest]
          rfl
        · have hstop (cs : List Char) : signs (c :: cs) = ([], c :: cs) :=
            signs_cons cs hc (fun h => hsign (.inl h)) fun h => hsign (.inr h)
          rw [squeeze, Literal.squeeze_kept (fun _ => hc), hstop, hstop, squeezeRest, squeeze,
            Literal.squeeze_kept fun _ => hc]

/-- No operand starts with a blank; the blanks before one are skipped by the caller. -/
theorem primary_blank (self : Reader) (source rest : List Char) {c : Char}
    (hc : isBlank c = true) : ∃ r, primary self source (c :: rest) = .error r := by
  have hident := isIdentChar_of_isBlank hc
  have hdigit : c.isDigit = false := by
    rw [Bool.eq_false_iff]
    exact fun h => by simp [isIdentChar_of_isDigit h] at hident
  have hstart : isIdentStart c = false := by
    rw [Bool.eq_false_iff]
    exact fun h => by simp [isIdentChar_of_isIdentStart h] at hident
  obtain ⟨hquote, hopening, -⟩ := isPlain_iff.1 (isPlain_of_isBlank hc)
  simp only [isOpening, Bool.or_eq_false_iff, beq_eq_false_iff_ne] at hopening
  exact ⟨_, by simp [primary, hquote, hdigit, hstart, hopening, blame]; rfl⟩

/-- **An operand without signs and postfixes is the same in both texts.**  What stands in brackets
is a text of its own, and shorter, so there the reader is blind. -/
theorem primary_squeeze {self : Reader} {cs : List Char} (source source' : List Char)
    (hself : Blind cs.length self) :
    Follows squeezeRest (primary self source cs) (primary self source' (squeeze cs)) := by
  cases cs with
  | nil => exact follows_error ..
  | cons c rest =>
    by_cases hquote : isQuote c = true
    · have hblank := (classes_of_isQuote hquote).1
      have hnext : Literal.outside.next c = .inside c := by simp [Literal.next, hquote]
      rw [squeeze, Literal.squeeze_kept fun _ => hblank, hnext, primary, primary, if_pos hquote,
        if_pos hquote, stringBody?_squeeze]
      cases stringBody? c rest with
      | none => exact follows_error ..
      | some p => exact follows_ok ..
    by_cases hblank : isBlank c = true
    · obtain ⟨r, hr⟩ := primary_blank self source rest hblank
      obtain ⟨r', hr'⟩ := primary_blank self source' (squeeze (trimStart rest)) isBlank_space
      rw [squeeze_blank hblank, hr, hr']
      exact follows_error ..
    have hsolid : isSolid c = true := by simp [isSolid, hquote, hblank]
    have hcons := squeeze_solid hsolid rest
    rw [hcons, primary, primary, if_neg hquote, if_neg hquote]
    split
    · rw [← hcons, number_squeeze]
      exact follows_blame source source' (follows_map ..)
    split
    · rw [matchingClose_squeeze]
      cases hclose : matchingClose rest with
      | none => exact follows_error ..
      | some p =>
        obtain ⟨inner, after⟩ := p
        have hlength := length_closeFrom_lt hclose
        dsimp only [Option.map_some]
        rw [hasChar_squeeze (by decide), squeeze, isBlankText_squeeze]
        split
        · exact follows_error ..
        split
        · exact follows_error ..
        · refine (hself inner (by simp only [List.length_cons]; omega)).bind_id fun e => ?_
          exact follows_ok ..
    split
    · exact follows_error ..
    split
    · exact follows_error ..
    split
    · rw [← hcons, word_squeeze]
      exact follows_blame source source' (follows_map ..)
    · exact follows_error ..

/-- **So are its attributes, subscripts and the refusal of a call.**  The induction is on the length
of what is left, since each postfix may stand behind blanks. -/
theorem postfixes_squeeze {self : Reader} {cs : List Char} (source source' : List Char)
    (subject : Expr) (hself : Blind cs.length self) :
    Follows squeezeRest (postfixes self source subject cs)
      (postfixes self source' subject (squeeze cs)) := by
  induction hn : cs.length using Nat.strongRecOn generalizing subject cs with
  | ind n ih =>
    subst hn
    cases cs with
    | nil =>
      rw [squeeze_nil, postfixes_nil, postfixes_nil]
      exact follows_ok ..
    | cons c rest =>
      rcases squeeze_cons c rest with ⟨-, heq⟩ | ⟨hc, d, more, hd, heq⟩
      · rw [heq, postfixes_cons, postfixes_cons, attributeAfter_squeeze, matchingClose_squeeze]
        split
        · cases hattr : attributeAfter subject rest with
          | error fault => exact follows_error ..
          | ok p =>
            obtain ⟨e, after⟩ := p
            have hlength := length_attributeAfter_le hattr
            have hlt : after.length < (c :: rest).length := by simp only [List.length_cons]; omega
            exact ih _ hlt e (hself.mono (Nat.le_of_lt hlt)) rfl
        split
        · cases hclose : matchingClose rest with
          | none => exact follows_error ..
          | some p =>
            obtain ⟨inner, after⟩ := p
            have hlength := length_closeFrom_lt hclose
            have htrim := length_trim_le inner
            have hlt : after.length < (c :: rest).length := by simp only [List.length_cons]; omega
            dsimp only [Option.map_some]
            rw [trim_squeeze, isEmpty_squeeze, hasChar_squeeze (by decide)]
            split
            · exact follows_error ..
            split
            · exact follows_error ..
            · have hkey := hself (trim inner) (by simp only [List.length_cons]; omega)
              refine hkey.bind_id fun key => ?_
              exact ih _ hlt _ (hself.mono (Nat.le_of_lt hlt)) rfl
        split
        · exact follows_error ..
        · rw [← heq]
          exact follows_ok ..
      · have hstop {c : Char} (hc : isSolid c = false) (source rest : List Char) :
            postfixes self source subject (c :: rest) = .ok (subject, c :: rest) := by
          have hdot := ne_of_not_solid '.' hc (by decide)
          have hbracket := ne_of_not_solid '[' hc (by decide)
          have hparen := ne_of_not_solid '(' hc (by decide)
          rw [postfixes_cons, if_neg hdot, if_neg hbracket, if_neg hparen]
        rw [heq, hstop hc, hstop hd, ← heq]
        exact follows_ok ..

/-- The arguments of a filter are skipped up to the closing parenthesis, whatever stands in them. -/
theorem skipArguments_squeeze (cs : List Char) :
    skipArguments (squeeze cs) = (skipArguments cs).map squeezeRest := by
  cases cs with
  | nil => rfl
  | cons c rest =>
    have hother {c : Char} (hc : c ≠ '(') (rest : List Char) :
        skipArguments (c :: rest) = .ok (false, c :: rest) := by
      simp [skipArguments, hc]
    rcases squeeze_cons c rest with ⟨-, heq⟩ | ⟨hc, d, more, hd, heq⟩
    · by_cases hparen : c = '('
      · subst hparen
        rw [heq, skipArguments, skipArguments, matchingClose_squeeze]
        cases matchingClose rest <;> rfl
      · rw [heq, hother hparen, hother hparen, ← heq]
        rfl
    · have hcp := ne_of_not_solid '(' hc (by decide)
      have hdp := ne_of_not_solid '(' hd (by decide)
      rw [heq, hother hcp, hother hdp, ← heq]
      rfl

theorem oneFilter_squeeze (operand : Expr) (cs : List Char) :
    oneFilter operand (squeeze cs) = (oneFilter operand cs).map squeezeRest := by
  obtain ⟨htake, hdrop⟩ := solidClass_isIdentChar.span (trimStart cs)
  unfold oneFilter
  dsimp only
  rw [trimStart_squeeze, htake, hdrop, skipArguments_squeeze]
  split
  · rfl
  · cases skipArguments ((trimStart cs).dropWhile isIdentChar) with
    | error fault => rfl
    | ok p =>
      obtain ⟨hasArguments, rest⟩ := p
      simp only [Except.map, squeezeRest, bind, Except.bind]
      split
      · split <;> rfl
      · rfl

/-- **Filters are the same in both texts**, each with blanks on either side of its bar. -/
theorem filters_squeeze (source source' : List Char) (operand : Expr) (cs : List Char) :
    Follows squeezeRest (filters source operand cs) (filters source' operand (squeeze cs)) := by
  induction hn : cs.length using Nat.strongRecOn generalizing operand cs with
  | ind n ih =>
    subst hn
    have htrim := length_trimStart_le cs
    rw [filters_eq, filters_eq, trimStart_squeeze]
    cases hcs : trimStart cs with
    | nil => exact follows_ok ..
    | cons c rest =>
      rw [hcs, List.length_cons] at htrim
      rcases squeeze_cons c rest with ⟨-, heq⟩ | ⟨hc, d, more, hd, heq⟩
      · rw [heq]
        dsimp only
        rw [oneFilter_squeeze]
        split
        · cases hfilter : oneFilter operand rest with
          | error fault => exact follows_error ..
          | ok p =>
            obtain ⟨e, after⟩ := p
            have hlength := length_oneFilter_le hfilter
            exact ih _ (by omega) e after rfl
        · rw [← heq]
          exact follows_ok ..
      · have hcbar := ne_of_not_solid '|' hc (by decide)
        have hdbar := ne_of_not_solid '|' hd (by decide)
        rw [heq]
        dsimp only
        rw [if_neg hcbar, if_neg hdbar, ← heq]
        exact follows_ok ..

/-- **A whole operand**, from its signs to its last filter. -/
theorem operand_squeeze {self : Reader} {cs : List Char} (source source' : List Char)
    (hself : Blind cs.length self) :
    Follows squeezeRest (operand self source cs) (operand self source' (squeeze cs)) := by
  have hlength := length_signs_le cs
  unfold operand
  rw [signs_squeeze]
  refine (primary_squeeze source source' (hself.mono hlength)).bind fun p hp => ?_
  obtain ⟨e, rest⟩ := p
  have hrest := length_primary_lt hp
  refine (postfixes_squeeze source source' e (hself.mono (by omega))).bind fun p hp => ?_
  exact filters_squeeze source source' _ _

/-! ## 5. Chains -/

/-- The signs of operators hold no blank and no quotation mark. -/
theorem isSolid_of_mem_symbol {symbol : List Char} {op : BinOp}
    (h : (symbol, op) ∈ operatorSymbols) : ∀ c ∈ symbol, isSolid c = true := by
  have hall : ∀ s ∈ operatorSymbols, s.1.all isSolid = true := by decide
  exact List.all_eq_true.1 (hall _ h)

/-- An operator is found in both texts or in none. -/
theorem operator_squeeze {c d : Char} {rest more : List Char}
    (heq : squeeze (c :: rest) = d :: more) :
    Follows squeezeRest (operator c rest) (operator d more) := by
  have hfloor := (isPrefixOf_squeeze (w := ['/', '/']) (forall_mem_of_all (by decide)) (c :: rest)).1
  have hpower := (isPrefixOf_squeeze (w := ['*', '*']) (forall_mem_of_all (by decide)) (c :: rest)).1
  have hfind : (operatorSymbols.find? fun s => s.1.isPrefixOf (d :: more)) =
      operatorSymbols.find? fun s => s.1.isPrefixOf (c :: rest) := by
    rw [← List.head?_filter, ← List.head?_filter, List.filter_congr fun s hs => ?_]
    rw [← heq, (isPrefixOf_squeeze (isSolid_of_mem_symbol hs) (c :: rest)).1]
  unfold operator
  rw [heq] at hfloor hpower
  rw [hfloor, hpower, hfind]
  split
  · exact follows_error ..
  split
  · exact follows_error ..
  split
  · rename_i symbol op hsymbol
    have hmem := List.mem_of_find?_eq_some hsymbol
    have hstarts := List.find?_some hsymbol
    rw [← heq, (isPrefixOf_squeeze (isSolid_of_mem_symbol hmem) (c :: rest)).2 hstarts]
    exact follows_ok ..
  · exact follows_error ..

/-- **A chain of operands is the same in both texts.**  The induction is on the number of operators
that are allowed; between an operand and an operator any blanks may stand. -/
theorem chain_squeeze {self : Reader} {cs : List Char} (source source' : List Char) (allowed : Nat)
    (before : Option (Expr × BinOp)) (compared : Bool) (hself : Blind cs.length self) :
    Follows id (chain self source allowed before compared cs)
      (chain self source' allowed before compared (squeeze cs)) := by
  induction allowed generalizing before compared cs with
  | zero => exact follows_error ..
  | succ allowed ih =>
    unfold chain
    refine (operand_squeeze source source' hself).bind fun p hp => ?_
    obtain ⟨e, rest⟩ := p
    have hlength := length_operand_lt hp
    dsimp only [squeezeRest]
    cases rest with
    | nil => exact follows_ok ..
    | cons c rest =>
      obtain ⟨d, more, heq⟩ : ∃ d more, squeeze (c :: rest) = d :: more :=
        List.exists_cons_of_ne_nil (by simp [squeeze_eq_nil_iff])
      rw [heq]
      dsimp only
      refine (follows_blame source source' (operator_squeeze heq)).bind fun p hp => ?_
      obtain ⟨op, after⟩ := p
      have hop := length_operator_le (eq_ok_of_blame hp)
      rw [List.length_cons] at hlength
      cases hchained : op.isComparison && compared with
      | true =>
        simp only [squeezeRest, hchained, if_true]
        exact follows_error ..
      | false =>
        simp only [squeezeRest, hchained, Bool.false_eq_true, if_false]
        exact ih _ _ (hself.mono (show after.length ≤ cs.length by omega))

/-! ## 6. Whole expressions -/

/-- Whether a text is cut at a word is seen in both texts alike. -/
theorem hasLooserWord_squeeze (cs : List Char) : hasLooserWord (squeeze cs) = hasLooserWord cs := by
  rw [hasLooserWord, hasLooserWord, hasWord_squeeze (by decide), hasWord_squeeze (by decide),
    hasWord_squeeze (by decide), afterKeyword?_squeeze (by decide), Option.isSome_map]

/-- A test asks for one of two names, perhaps after a `not`. -/
theorem test_squeeze {self : Reader} {subject : List Char} (source source' name : List Char)
    (hself : Follows id (self subject) (self (squeeze subject))) :
    Follows id (test self source subject name)
      (test self source' (squeeze subject) (squeeze name)) := by
  have hdefined : ∀ c ∈ "defined".toList, isSolid c = true := forall_mem_of_all (by decide)
  have hundefined : ∀ c ∈ "undefined".toList, isSolid c = true := forall_mem_of_all (by decide)
  have htest (negated : Bool) (name : List Char) :
      Follows id
        (if name = "defined".toList then do return Expr.defined negated (← self subject)
          else if name = "undefined".toList then do return Expr.defined (!negated) (← self subject)
          else blame source (.error (.unsupportedTest name)))
        (if squeeze name = "defined".toList then do
            return Expr.defined negated (← self (squeeze subject))
          else if squeeze name = "undefined".toList then do
            return Expr.defined (!negated) (← self (squeeze subject))
          else blame source' (.error (.unsupportedTest (squeeze name)))) := by
    simp only [squeeze_eq_iff hdefined, squeeze_eq_iff hundefined]
    split
    · exact hself.bind_id fun e => follows_ok ..
    split
    · exact hself.bind_id fun e => follows_ok ..
    · exact follows_error ..
  unfold test
  rw [afterKeyword?_squeeze (by decide)]
  cases afterKeyword? "not".toList name with
  | none => exact htest false name
  | some rest => exact htest true rest

theorem part_squeeze {self : Reader} {cs : List Char} (source source' : List Char)
    (hself : Follows id (self cs) (self (squeeze cs))) :
    Follows id (part self source cs) (part self source' (squeeze cs)) := by
  rw [part, part, squeeze, isBlankText_squeeze]
  split
  · exact follows_error ..
  · exact hself

/-- The parts around `or` and `and` are read one by one, each on its own. -/
theorem joinParts_squeeze {self : Reader} {first : List Char} {rest : List (List Char)}
    (source source' : List Char) (join : Expr → Expr → Expr)
    (hself : ∀ p ∈ first :: rest, Follows id (self p) (self (squeeze p))) :
    Follows id (joinParts self source join first rest)
      (joinParts self source' join (squeeze first) (rest.map squeeze)) := by
  unfold joinParts
  refine (part_squeeze source source' (hself first (by simp))).bind_id fun e => ?_
  have hrest : ∀ p ∈ rest, Follows id (self p) (self (squeeze p)) := fun p hp =>
    hself p (List.mem_cons_of_mem _ hp)
  clear hself
  induction rest generalizing e with
  | nil => exact follows_ok ..
  | cons p rest ih =>
    rw [List.map_cons, List.foldlM_cons, List.foldlM_cons]
    refine Follows.bind_id ?_ fun acc => ih acc fun q hq => hrest q (List.mem_cons_of_mem _ hq)
    exact (part_squeeze source source' (hrest p (by simp))).bind_id fun e' => follows_ok ..

/-- The item of a membership test ends before a `not` in both texts, if there is one. -/
theorem memberItem_squeeze (before : List Char) :
    memberItem (squeeze before) = (squeeze (memberItem before).1, (memberItem before).2) := by
  have hnot : ∀ c ∈ "not".toList, isBlank c = false := forall_mem_of_all (by decide)
  have hends (cs : List Char) :
      "not".toList.isSuffixOf (squeeze cs) = "not".toList.isSuffixOf cs := by
    rw [Bool.eq_iff_iff, List.isSuffixOf_iff_suffix, List.isSuffixOf_iff_suffix,
      suffix_squeeze_iff hnot]
  unfold memberItem
  dsimp only
  rw [trimEnd_squeeze, hends]
  cases h : "not".toList.isSuffixOf (trimEnd before) with
  | false => rfl
  | true =>
    obtain ⟨stem, hstem⟩ := List.isSuffixOf_iff_suffix.1 h
    have htake (as : List Char) :
        (as ++ "not".toList).take ((as ++ "not".toList).length - 3) = as := by
      simp
    rw [← hstem, squeeze_append_word hnot, htake, htake, trimEnd_squeeze, squeeze,
      any_getLast?_squeeze]
    split
    · rfl
    · rw [← squeeze, squeeze_append_word hnot]

/-- Both sides of a membership test are texts of their own, the container first. -/
theorem membership_squeeze {self : Reader} {before after : List Char} (source source' : List Char)
    {bound : Nat} (hself : Blind bound self) (hb : before.length < bound)
    (ha : after.length < bound) :
    Follows id (membership self source before after)
      (membership self source' (squeeze before) (squeeze after)) := by
  have hitem := length_memberItem_le before
  have htrim := length_trim_le after
  unfold membership
  rw [memberItem_squeeze, trim_squeeze]
  dsimp only
  rw [isEmpty_squeeze, isEmpty_squeeze]
  split
  · exact follows_error ..
  · refine (hself (trim after) (by omega)).bind_id fun container => ?_
    exact (hself _ (by omega)).bind_id fun item => follows_ok ..

/-- Several parts or not. -/
theorem follows_several {parts : List (List Char)} {r r' : Except Refusal Expr}
    {many many' : List Char → List Char → List (List Char) → Except Refusal Expr}
    (h : ∀ first second rest, parts = first :: second :: rest →
      Follows id (many first second rest)
        (many' (squeeze first) (squeeze second) (rest.map squeeze)))
    (hr : Follows id r r') :
    Follows id
      (match parts with
        | first :: second :: rest => many first second rest
        | _ => r)
      (match parts.map squeeze with
        | first :: second :: rest => many' first second rest
        | _ => r') := by
  rcases parts with _ | ⟨first, _ | ⟨second, rest⟩⟩
  · exact hr
  · exact hr
  · exact h first second rest rfl

/-- **The four ways to take a text apart at a word**, tried in the same order in both texts. -/
theorem boolean_squeeze {self : Reader} {source : List Char} (hself : Blind source.length self) :
    Follows id (boolean self source) (boolean self (squeeze source)) := by
  have hlength : (squeeze source).length ≤ source.length := length_squeeze_le _ _
  unfold boolean
  rw [splitWord_squeeze (by decide), splitWord_squeeze (by decide),
    afterKeyword?_squeeze (by decide), cutWord_squeeze (by decide)]
  refine follows_several (fun first second rest hor => ?_)
    (follows_several (fun first second rest hand => ?_) ?_)
  · exact joinParts_squeeze source _ .or fun p hp =>
      hself p (length_lt_of_mem_splitWord (by decide) hor hp)
  · exact joinParts_squeeze source _ .and fun p hp =>
      hself p (length_lt_of_mem_splitWord (by decide) hand hp)
  cases hnot : afterKeyword? "not".toList source with
  | some rest =>
    exact (hself rest (length_afterKeyword?_lt (by decide) hnot)).bind_id fun e => follows_ok ..
  | none =>
    cases hin : cutWord "in".toList source with
    | some cut =>
      obtain ⟨before, after⟩ := cut
      have hcut := length_cutWord hin
      have hword : "in".toList.length = 2 := by decide
      exact membership_squeeze source _ hself (by omega) (by omega)
    | none =>
      have hfuel : chain self (squeeze source) ((squeeze source).length + 1) none false
          (squeeze source) = chain self (squeeze source) (source.length + 1) none false
            (squeeze source) :=
        chain_eq_of_lt _ _ _ (Nat.lt_succ_self _) (Nat.lt_succ_of_le hlength)
      dsimp only [Option.map_none]
      rw [hfuel]
      exact chain_squeeze source _ _ none false hself

/-- **One round of the reader**, if the reader of inner texts is blind. -/
theorem readWith_squeeze {self : Reader} {expr : List Char} (hself : Blind expr.length self) :
    Follows id (readWith self expr) (readWith self (squeeze expr)) := by
  have htrim := length_trim_le expr
  unfold readWith
  dsimp only
  rw [trim_squeeze, isEmpty_squeeze, hasLooserWord_squeeze]
  split
  · exact follows_error ..
  have hboolean := boolean_squeeze (hself.mono htrim)
  cases hasLooserWord (trim expr) with
  | true => exact hboolean
  | false =>
    rw [cutWord_squeeze (by decide)]
    cases his : cutWord "is".toList (trim expr) with
    | none => exact hboolean
    | some cut =>
      obtain ⟨subject, name⟩ := cut
      have hcut := length_cutWord his
      have hword : "is".toList.length = 2 := by decide
      have hsubject := length_trim_le subject
      change Follows id _ (test self (squeeze (trim expr)) (trim (squeeze subject))
        (trim (squeeze name)))
      rw [trim_squeeze, trim_squeeze]
      exact test_squeeze _ _ _ (hself (trim subject) (by omega))

end Reading

/-- **Spacing does not matter to the reader.** -/
theorem Expr.read_squeeze (cs : List Char) :
    Follows id (Expr.read cs) (Expr.read (squeeze cs)) := by
  induction hn : cs.length using Nat.strongRecOn generalizing cs with
  | ind n ih =>
    subst hn
    rw [Expr.read_eq, Expr.read_eq (squeeze cs)]
    exact Reading.readWith_squeeze fun t ht => ih _ ht t rfl

/-- Blanks around a text do not count. -/
theorem Expr.toOption_read_trim (cs : List Char) :
    (Expr.read (trim cs)).toOption = (Expr.read cs).toOption := by
  rw [Expr.read_eq, Expr.read_eq cs, Reading.readWith, Reading.readWith, trim_trim]
  split <;> rfl

/-- The text of an expression without its spacing: one space for every run of blanks between two of
its characters, and no blanks around it. -/
def unspaced (cs : List Char) : List Char := trim (squeeze cs)

/-- Whether a text ends within a literal that nothing closes. -/
def EndsInLiteral (cs : List Char) : Prop := (cs.foldl Scan.next Scan.start).literal ≠ .outside

/-- Such a text is not read. -/
theorem EndsInLiteral.toOption_read {cs : List Char} (h : EndsInLiteral cs) :
    (Expr.read cs).toOption = none := by
  cases hread : Expr.read cs with
  | error r => rfl
  | ok e =>
    have hend := (Expr.accepted_of_read hread).balanced.foldl_next 0
    exact absurd (congrArg Scan.literal hend) h

/-- An expression is read as its unspaced form is. -/
theorem Expr.toOption_read_unspaced (cs : List Char) :
    (Expr.read (unspaced cs)).toOption = (Expr.read cs).toOption := by
  rw [unspaced, Expr.toOption_read_trim, Expr.read_squeeze, Option.map_id]
  rfl

namespace Target

/-- The code of a text depends on what is read of it and on nothing else. -/
theorem print_compileExpr_eq_ok_iff {scope : Scope} {cs code : List Char} :
    (compileExpr scope cs).map Code.print = .ok code ↔
      (Expr.read cs).toOption.map (fun e => (lower scope e).print) = some code := by
  unfold compileExpr
  cases Expr.read cs <;> simp [Except.map, Except.toOption]

/-- **The code of an expression does not depend on its spacing**, whatever names are in scope.  The
two texts have the same literals and the same other characters that are not blank, and outside of
literals blanks stand between the same of them; how many and which blanks does not matter, nor does
what stands around the texts.  Nothing is asked of texts that end within a literal: they have no
code. -/
theorem compileExpr_spacing {cs cs' : List Char}
    (h : unspaced cs = unspaced cs' ∨ EndsInLiteral cs ∧ EndsInLiteral cs') (scope : Scope)
    (code : List Char) :
    (compileExpr scope cs).map Code.print = .ok code ↔
      (compileExpr scope cs').map Code.print = .ok code := by
  have hread : (Expr.read cs).toOption = (Expr.read cs').toOption := by
    rcases h with h | ⟨hcs, hcs'⟩
    · rw [← Expr.toOption_read_unspaced, h, Expr.toOption_read_unspaced]
    · rw [hcs.toOption_read, hcs'.toOption_read]
  rw [print_compileExpr_eq_ok_iff, print_compileExpr_eq_ok_iff, hread]

/-- The theorem at two texts with different blanks between words, at a filter and in a subscript.
The blanks in the literal are the same. -/
theorem compileExpr_spacing_lines :
    ∃ code, (compileExpr ⟨["d".toList], []⟩
          "a not in d[ 'x  y' ] or not b | f".toList).map Code.print = .ok code ∧
      (compileExpr ⟨["d".toList], []⟩
          "\n  a not\tin\u00a0d[\u2003'x  y' ]\r\nor \t not\nb\u3000| f ".toList).map
        Code.print = .ok code := by
  have hsome : ((compileExpr ⟨["d".toList], []⟩
      "a not in d[ 'x  y' ] or not b | f".toList).map Code.print).toOption.isSome = true := by
    decide +kernel
  obtain ⟨code, hcode⟩ := eq_ok_of_isSome hsome
  exact ⟨code, hcode, (compileExpr_spacing (.inl (by decide +kernel)) _ _).1 hcode⟩

end Target

end TemplateCompiler
