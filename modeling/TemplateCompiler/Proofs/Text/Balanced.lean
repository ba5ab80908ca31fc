import TemplateCompiler.Proofs.Text.Trim
import TemplateCompiler.Proofs.Text.Word
import TemplateCompiler.Text.Outline

/-! # Balanced texts

A text is balanced when every literal and every bracket in it is closed.  The scanners of a
text come out of a balanced part as they went in, so such a part can be passed over whatever
stands around it:

* `Balanced.matchingClose` finds the bracket right after a balanced text;
* `Balanced.hasChar` says that a character is at top level only if the text shows it there;
* `Skips` says that no top-level word is found in a text, whatever follows it after a blank.

A text without a blank at top level is one *chunk*.  A word is found there only if it is the
whole chunk (`Balanced.skips`), and texts that are passed over stay so when they are joined by
a blank (`Skips.join`).
-/

namespace TemplateCompiler.Text

/-! ## 1. Classes of characters -/

/-- A character that neither opens nor closes a literal or a bracket. -/
def isPlain (c : Char) : Bool := !isQuote c && !isOpening c && !isClosing c

theorem isPlain_iff {c : Char} :
    isPlain c = true ↔ isQuote c = false ∧ isOpening c = false ∧ isClosing c = false := by
  simp only [isPlain, Bool.and_eq_true, Bool.not_eq_true', and_assoc]

/-- No character of a name is blank. -/
theorem isBlank_of_isIdentChar {c : Char} (h : isIdentChar c = true) : isBlank c = false := by
  simp only [isIdentChar, Char.isAlphanum, Bool.or_eq_true, isAlpha_iff, isDigit_iff,
    beq_iff_eq] at h
  rcases h with h | rfl
  · simp only [isBlank, isBlankCode, Bool.or_eq_false_iff, Bool.and_eq_false_iff,
      decide_eq_false_iff_not, beq_eq_false_iff_ne]
    omega
  · decide

/-- No blank is a character of a name. -/
theorem isIdentChar_of_isBlank {c : Char} (h : isBlank c = true) : isIdentChar c = false := by
  rw [Bool.eq_false_iff]
  intro hc
  simp [isBlank_of_isIdentChar hc] at h

/-- A name, or any text of such characters, is tight. -/
theorem tight_of_isIdentChar {cs : List Char} (hne : cs ≠ [])
    (h : ∀ c ∈ cs, isIdentChar c = true) : Tight cs := by
  constructor
  · obtain ⟨c, rest, rfl⟩ := List.exists_cons_of_ne_nil hne
    exact ⟨c, rest, rfl, isBlank_of_isIdentChar (h c (by simp))⟩
  · obtain ⟨init, c, rfl⟩ := (List.eq_nil_or_concat cs).resolve_left hne
    exact ⟨init, c, by simp, isBlank_of_isIdentChar (h c (by simp))⟩

theorem isQuote_iff {c : Char} : isQuote c = true ↔ c = '\'' ∨ c = '"' := by
  simp only [isQuote, Bool.or_eq_true, beq_iff_eq]

theorem isOpening_iff {c : Char} : isOpening c = true ↔ c = '(' ∨ c = '[' ∨ c = '{' := by
  simp only [isOpening, Bool.or_eq_true, beq_iff_eq, or_assoc]

theorem isClosing_iff {c : Char} : isClosing c = true ↔ c = ')' ∨ c = ']' ∨ c = '}' := by
  simp only [isClosing, Bool.or_eq_true, beq_iff_eq, or_assoc]

theorem isPlain_of_isIdentChar {c : Char} (h : isIdentChar c = true) : isPlain c = true := by
  rw [isPlain_iff]
  refine ⟨?_, ?_, ?_⟩ <;> rw [Bool.eq_false_iff] <;> intro hc
  · rcases isQuote_iff.1 hc with rfl | rfl <;> exact absurd h (by decide)
  · rcases isOpening_iff.1 hc with rfl | rfl | rfl <;> exact absurd h (by decide)
  · rcases isClosing_iff.1 hc with rfl | rfl | rfl <;> exact absurd h (by decide)

theorem classes_of_isQuote {c : Char} (h : isQuote c = true) :
    isBlank c = false ∧ isOpening c = false ∧ isClosing c = false ∧ isIdentChar c = false ∧
      c ≠ '\\' := by
  rcases isQuote_iff.1 h with rfl | rfl <;> decide

theorem classes_of_isOpening {c : Char} (h : isOpening c = true) :
    isBlank c = false ∧ isQuote c = false ∧ isClosing c = false ∧ isIdentChar c = false := by
  rcases isOpening_iff.1 h with rfl | rfl | rfl <;> decide

theorem classes_of_isClosing {c : Char} (h : isClosing c = true) :
    isBlank c = false ∧ isQuote c = false ∧ isOpening c = false ∧ isIdentChar c = false := by
  rcases isClosing_iff.1 h with rfl | rfl | rfl <;> decide

theorem isPlain_of_isBlank {c : Char} (h : isBlank c = true) : isPlain c = true := by
  rw [isPlain_iff]
  refine ⟨?_, ?_, ?_⟩ <;> rw [Bool.eq_false_iff] <;> intro hc
  · simp [(classes_of_isQuote hc).1] at h
  · simp [(classes_of_isOpening hc).1] at h
  · simp [(classes_of_isClosing hc).1] at h

/-- A word that cuts a text: at least one character, all of them characters of a name. -/
def IsWord (w : List Char) : Prop := w ≠ [] ∧ ∀ c ∈ w, isIdentChar c = true

instance (w : List Char) : Decidable (IsWord w) :=
  decidable_of_decidable_of_iff (p := w.isEmpty = false ∧ w.all isIdentChar = true)
    (by simp [IsWord])

/-! ## 2. Balanced texts -/

/-- What stands between the quotation marks of a literal: a backslash protects the character
after it. -/
inductive LiteralBody (q : Char) : List Char → Prop
  | nil : LiteralBody q []
  | plain {c : Char} {cs : List Char} (hc : c ≠ '\\') (hq : c ≠ q) (h : LiteralBody q cs) :
      LiteralBody q (c :: cs)
  | escape {c : Char} {cs : List Char} (h : LiteralBody q cs) : LiteralBody q ('\\' :: c :: cs)

/-- A balanced text.  All that stands at top level, brackets and literals apart, satisfies `P`.
The kinds of the two brackets of a pair may differ: no scanner looks at them. -/
inductive Balanced : (Char → Prop) → List Char → Prop
  | nil {P : Char → Prop} : Balanced P []
  | plain {P : Char → Prop} {c : Char} {cs : List Char} (hc : isPlain c = true) (hP : P c)
      (h : Balanced P cs) : Balanced P (c :: cs)
  | literal {P : Char → Prop} {q : Char} {body cs : List Char} (hq : isQuote q = true)
      (hbody : LiteralBody q body) (h : Balanced P cs) : Balanced P (q :: (body ++ q :: cs))
  | nest {P : Char → Prop} {o c : Char} {inner cs : List Char} (ho : isOpening o = true)
      (hc : isClosing c = true) (hinner : Balanced (fun _ => True) inner) (h : Balanced P cs) :
      Balanced P (o :: (inner ++ c :: cs))

theorem Balanced.append {P : Char → Prop} {as bs : List Char} (ha : Balanced P as)
    (hb : Balanced P bs) : Balanced P (as ++ bs) := by
  induction ha with
  | nil => exact hb
  | plain hc hP _ ih => exact .plain hc hP (ih hb)
  | literal hq hbody _ ih =>
    simp only [List.cons_append, List.append_assoc]
    exact .literal hq hbody (ih hb)
  | nest ho hc hinner _ _ ih =>
    simp only [List.cons_append, List.append_assoc]
    exact .nest ho hc hinner (ih hb)

theorem Balanced.mono {P Q : Char → Prop} {cs : List Char} (hPQ : ∀ c, P c → Q c)
    (h : Balanced P cs) : Balanced Q cs := by
  induction h with
  | nil => exact .nil
  | plain hc hP _ ih => exact .plain hc (hPQ _ hP) (ih hPQ)
  | literal hq hbody _ ih => exact .literal hq hbody (ih hPQ)
  | nest ho hc hinner _ _ ih => exact .nest ho hc hinner (ih hPQ)

/-- A text of plain characters is balanced. -/
theorem Balanced.of_plain {P : Char → Prop} {cs : List Char}
    (h : ∀ c ∈ cs, isPlain c = true ∧ P c) : Balanced P cs := by
  induction cs with
  | nil => exact .nil
  | cons c cs ih =>
    obtain ⟨hc, hP⟩ := h c (by simp)
    exact .plain hc hP (ih fun d hd => h d (by simp [hd]))

/-- A balanced text in brackets is balanced, whatever it shows. -/
theorem Balanced.bracketed {P Q : Char → Prop} {o c : Char} {inner : List Char}
    (ho : isOpening o = true) (hc : isClosing c = true) (h : Balanced P inner) :
    Balanced Q (o :: (inner ++ [c])) :=
  .nest ho hc (h.mono fun _ _ => trivial) .nil

/-- If a text goes on after `e` and its last character is not `e`, that character comes later. -/
theorem concat_eq_append_cons (pre : List Char) {cs ds : List Char} {c e : Char} (hne : c ≠ e)
    (h : cs ++ [c] = pre ++ e :: ds) : ∃ init, ds = init ++ [c] ∧ cs = pre ++ e :: init := by
  rcases List.eq_nil_or_concat ds with rfl | ⟨init, last, rfl⟩
  · exact absurd (List.append_inj_right' h rfl) (by simpa using hne)
  · have hsplit : cs ++ [c] = (pre ++ e :: init) ++ [last] := by simpa using h
    obtain ⟨hcs, hlast⟩ := List.append_inj' hsplit rfl
    obtain rfl : c = last := by simpa using hlast
    exact ⟨init, by simp, hcs⟩

/-- The last character of a balanced text is at top level if it is plain. -/
theorem Balanced.of_concat {P : Char → Prop} {cs : List Char} {c : Char} (hc : isPlain c = true)
    (h : Balanced P (cs ++ [c])) : Balanced P cs := by
  obtain ⟨hquote, -, hclosing⟩ := isPlain_iff.1 hc
  generalize hds : cs ++ [c] = ds at h
  induction h generalizing cs with
  | nil => simp at hds
  | plain hd hP _ ih =>
    cases cs with
    | nil => exact .nil
    | cons x cs =>
      simp only [List.cons_append, List.cons.injEq] at hds
      obtain ⟨rfl, hds⟩ := hds
      exact .plain hd hP (ih hds)
  | @literal P q body ds hq hbody _ ih =>
    -- a literal or a bracket at the end would leave a mark there
    have hne : c ≠ q := by rintro rfl; simp [hq] at hquote
    obtain ⟨init, rfl, rfl⟩ := concat_eq_append_cons (q :: body) hne hds
    exact .literal hq hbody (ih rfl)
  | @nest P o e inner ds ho he hinner _ _ ih =>
    have hne : c ≠ e := by rintro rfl; simp [he] at hclosing
    obtain ⟨init, rfl, rfl⟩ := concat_eq_append_cons (o :: inner) hne hds
    exact .nest ho he hinner (ih rfl)

/-- So is a word at the end. -/
theorem Balanced.of_append_word {P : Char → Prop} {cs w : List Char}
    (hw : ∀ c ∈ w, isPlain c = true) (h : Balanced P (cs ++ w)) : Balanced P cs := by
  induction w generalizing cs with
  | nil => simpa using h
  | cons c w ih =>
    have hcs : Balanced P (cs ++ [c]) := ih (fun d hd => hw d (by simp [hd])) (by simpa using h)
    exact hcs.of_concat (hw c (by simp))

/-! ## 3. Passing over a balanced text -/

/-- A cut of a longer text, from a cut of what follows `cs`. -/
def prepend (cs : List Char) (cut : Option (List Char × List Char)) :
    Option (List Char × List Char) :=
  cut.map fun (before, after) => (cs ++ before, after)

@[simp] theorem prepend_none (cs : List Char) : prepend cs none = none := rfl

@[simp] theorem prepend_some (cs before after : List Char) :
    prepend cs (some (before, after)) = some (cs ++ before, after) := rfl

@[simp] theorem prepend_nil (cut : Option (List Char × List Char)) : prepend [] cut = cut := by
  cases cut <;> rfl

@[simp] theorem prepend_prepend (as bs : List Char) (cut : Option (List Char × List Char)) :
    prepend as (prepend bs cut) = prepend (as ++ bs) cut := by
  cases cut with
  | none => rfl
  | some p => simp [prepend]

@[simp] theorem isSome_prepend (cs : List Char) (cut : Option (List Char × List Char)) :
    (prepend cs cut).isSome = cut.isSome := by
  cases cut <;> rfl

/-- The scanner outside literals, inside `depth` brackets. -/
def Scan.within (depth : Nat) : Scan := { literal := .outside, depth }

@[simp] theorem Scan.start_eq_within : Scan.start = Scan.within 0 := rfl

theorem closeFrom_cons (l : Literal) (depth : Nat) (c : Char) (rest : List Char) :
    closeFrom l depth (c :: rest) =
      if l = .outside && isClosing c && l.depthAfter depth c == 0 then some ([], rest)
      else prepend [c] (closeFrom (l.next c) (l.depthAfter depth c) rest) := rfl

theorem Scan.cutChar_cons (target : Char) (s : Scan) (c : Char) (rest : List Char) :
    s.cutChar target (c :: rest) =
      if s.shows c && c == target then some ([], rest)
      else prepend [c] ((s.next c).cutChar target rest) := rfl

@[simp] theorem Scan.cutWord_nil (w : List Char) (s : Scan) (afterBlank : Bool) :
    s.cutWord w afterBlank [] = none := rfl

theorem Scan.cutWord_cons (w : List Char) (s : Scan) (afterBlank : Bool) (c : Char)
    (rest : List Char) :
    s.cutWord w afterBlank (c :: rest) =
      if afterBlank && s.shows c && startsWithWord w (c :: rest) then
        some ([], (c :: rest).drop w.length)
      else prepend [c] ((s.next c).cutWord w (isBlank c) rest) := rfl

/-- A scanner with states `σ` that walks over every character that is not shown.  All three
scanners do: they stop at shown characters only. -/
structure Walks {σ : Type} (scan : σ → Scan) (next : σ → Char → σ)
    (f : σ → List Char → Option (List Char × List Char)) : Prop where
  scan_next : ∀ (s : σ) (c : Char), scan (next s c) = (scan s).next c
  hidden : ∀ (s : σ) (c : Char) (rest : List Char), (scan s).shows c = false →
    f s (c :: rest) = prepend [c] (f (next s c) rest)

section Walks

variable {σ : Type} {scan : σ → Scan} {next : σ → Char → σ}
  {f : σ → List Char → Option (List Char × List Char)}

/-- In a literal nothing is shown. -/
theorem Walks.literalBody (hf : Walks scan next f) {q : Char} {body : List Char}
    (h : LiteralBody q body) {depth : Nat} {s : σ}
    (hs : scan s = { literal := .inside q, depth }) (rest : List Char) :
    ∃ s', scan s' = { literal := .inside q, depth } ∧
      f s (body ++ rest) = prepend body (f s' rest) := by
  induction h generalizing s with
  | nil => exact ⟨s, hs, by simp⟩
  | @plain c body hc hq _ ih =>
    have hn : scan (next s c) = { literal := .inside q, depth } := by
      simp [hf.scan_next, hs, Scan.next, Literal.next, Literal.depthAfter, hc, hq]
    obtain ⟨s', hs', he⟩ := ih hn
    refine ⟨s', hs', ?_⟩
    rw [List.cons_append, hf.hidden s c _ (by simp [hs, Scan.shows]), he]
    simp
  | @escape c body _ ih =>
    have hn : scan (next (next s '\\') c) = { literal := .inside q, depth } := by
      simp [hf.scan_next, hs, Scan.next, Literal.next, Literal.depthAfter]
    obtain ⟨s', hs', he⟩ := ih hn
    refine ⟨s', hs', ?_⟩
    rw [List.cons_append, List.cons_append, hf.hidden s '\\' _ (by simp [hs, Scan.shows]),
      hf.hidden (next s '\\') c _ (by simp [hf.scan_next, hs, Scan.next, Literal.next, Scan.shows]),
      he]
    simp

/-- A literal is walked over, and its second mark is the last character that was seen. -/
theorem Walks.literal (hf : Walks scan next f) {q : Char} {body : List Char}
    (hq : isQuote q = true) (h : LiteralBody q body) {depth : Nat} {s : σ}
    (hs : scan s = Scan.within depth) (rest : List Char) :
    ∃ s', scan (next s' q) = Scan.within depth ∧
      f s (q :: (body ++ q :: rest)) = prepend (q :: (body ++ [q])) (f (next s' q) rest) := by
  obtain ⟨-, ho, hc, -, hb⟩ := classes_of_isQuote hq
  have hn : scan (next s q) = { literal := .inside q, depth } := by
    simp [hf.scan_next, hs, Scan.within, Scan.next, Literal.next, Literal.depthAfter, hq, ho, hc]
  obtain ⟨s', hs', he⟩ := hf.literalBody h hn (q :: rest)
  refine ⟨s', ?_, ?_⟩
  · simp [hf.scan_next, hs', Scan.next, Literal.next, Literal.depthAfter, hb, Scan.within]
  · rw [hf.hidden s q _ (by simp [hs, Scan.within, Scan.shows, hq]), he,
      hf.hidden s' q _ (by simp [hs', Scan.shows])]
    simp

/-- Inside a bracket nothing of a balanced text is shown. -/
theorem Walks.inner (hf : Walks scan next f) {P : Char → Prop} {cs : List Char}
    (h : Balanced P cs) {depth : Nat} {s : σ} (hs : scan s = Scan.within (depth + 1))
    (rest : List Char) :
    ∃ s', scan s' = Scan.within (depth + 1) ∧ f s (cs ++ rest) = prepend cs (f s' rest) := by
  induction h generalizing depth s rest with
  | nil => exact ⟨s, hs, by simp⟩
  | @plain P c cs hc _ _ ih =>
    obtain ⟨hq, ho, hcl⟩ := isPlain_iff.1 hc
    have hn : scan (next s c) = Scan.within (depth + 1) := by
      simp [hf.scan_next, hs, Scan.within, Scan.next, Literal.next, Literal.depthAfter, hq, ho, hcl]
    obtain ⟨s', hs', he⟩ := ih hn rest
    refine ⟨s', hs', ?_⟩
    rw [List.cons_append, hf.hidden s c _ (by simp [hs, Scan.within, Scan.shows, hcl]), he]
    simp
  | @literal P q body cs hq hbody _ ih =>
    obtain ⟨s₁, hs₁, he₁⟩ := hf.literal hq hbody hs (cs ++ rest)
    obtain ⟨s', hs', he⟩ := ih hs₁ rest
    refine ⟨s', hs', ?_⟩
    simp only [List.cons_append, List.append_assoc, he₁, he]
    simp
  | @nest P o e inner cs ho he _ _ ih₁ ih₂ =>
    obtain ⟨-, hoq, hocl, -⟩ := classes_of_isOpening ho
    obtain ⟨-, heq, heo, -⟩ := classes_of_isClosing he
    have hn : scan (next s o) = Scan.within (depth + 1 + 1) := by
      simp [hf.scan_next, hs, Scan.within, Scan.next, Literal.next, Literal.depthAfter, hoq, ho]
    obtain ⟨s₁, hs₁, he₁⟩ := ih₁ hn (e :: (cs ++ rest))
    have hn₁ : scan (next s₁ e) = Scan.within (depth + 1) := by
      simp [hf.scan_next, hs₁, Scan.within, Scan.next, Literal.next, Literal.depthAfter, heq, heo, he]
    obtain ⟨s', hs', he'⟩ := ih₂ hn₁ rest
    refine ⟨s', hs', ?_⟩
    have hshow : (scan s).shows o = false := by simp [hs, Scan.within, Scan.shows, hocl]
    have hshow₁ : (scan s₁).shows e = false := by simp [hs₁, Scan.within, Scan.shows, he]
    simp only [List.cons_append, List.append_assoc, hf.hidden s o _ hshow, he₁,
      hf.hidden s₁ e _ hshow₁, he']
    simp

end Walks

/-! ## 4. The bracket that closes -/

theorem walks_closeFrom : Walks id Scan.next fun s => closeFrom s.literal s.depth where
  scan_next _ _ := rfl
  hidden s c rest h := by
    have hstop : ¬ (s.literal = .outside && isClosing c && s.literal.depthAfter s.depth c == 0) := by
      intro hstop
      simp only [Bool.and_eq_true, decide_eq_true_eq, beq_iff_eq] at hstop
      obtain ⟨⟨hl, hc⟩, hd⟩ := hstop
      obtain ⟨-, hq, ho, -⟩ := classes_of_isClosing hc
      have hdepth : s.depth ≤ 1 := by
        simp only [hl, Literal.depthAfter, ho, hc, if_true, Bool.false_eq_true, if_false] at hd
        omega
      simp [Scan.shows, hl, hq, hc, hdepth] at h
    rw [closeFrom_cons, if_neg hstop]
    rfl

/-- **The bracket that closes is the one after a balanced text.** -/
theorem Balanced.matchingClose {P : Char → Prop} {cs : List Char} (h : Balanced P cs) {c : Char}
    (hc : isClosing c = true) (rest : List Char) :
    matchingClose (cs ++ c :: rest) = some (cs, rest) := by
  obtain ⟨s, hs, he⟩ := walks_closeFrom.inner h (s := Scan.within 1) rfl (c :: rest)
  obtain rfl : s = Scan.within 1 := hs
  obtain ⟨-, -, ho, -⟩ := classes_of_isClosing hc
  have hstop : closeFrom .outside 1 (c :: rest) = some ([], rest) := by
    simp [closeFrom_cons, Literal.depthAfter, ho, hc]
  rw [Text.matchingClose]
  simpa [Scan.within, hstop] using he

/-! ## 5. Characters at top level -/

theorem walks_cutChar (target : Char) : Walks id Scan.next (Scan.cutChar target) where
  scan_next _ _ := rfl
  hidden s c rest h := by
    have hs : s.shows c = false := h
    simp [Scan.cutChar_cons, hs]

/-- What is shown after a plain character at top level is as before. -/
theorem Scan.next_within_of_isPlain {c : Char} (hc : isPlain c = true) (depth : Nat) :
    (Scan.within depth).next c = Scan.within depth := by
  obtain ⟨hq, ho, hcl⟩ := isPlain_iff.1 hc
  simp [Scan.within, Scan.next, Literal.next, Literal.depthAfter, hq, ho, hcl]

theorem Scan.next_within_of_isOpening {c : Char} (hc : isOpening c = true) (depth : Nat) :
    (Scan.within depth).next c = Scan.within (depth + 1) := by
  obtain ⟨-, hq, -, -⟩ := classes_of_isOpening hc
  simp [Scan.within, Scan.next, Literal.next, Literal.depthAfter, hq, hc]

theorem Scan.next_within_of_isClosing {c : Char} (hc : isClosing c = true) (depth : Nat) :
    (Scan.within (depth + 1)).next c = Scan.within depth := by
  obtain ⟨-, hq, ho, -⟩ := classes_of_isClosing hc
  simp [Scan.within, Scan.next, Literal.next, Literal.depthAfter, hq, ho, hc]

/-- **A character that the text does not show at top level is not found there.** -/
theorem Balanced.hasChar {P : Char → Prop} {cs : List Char} (h : Balanced P cs) {target : Char}
    (ht : isPlain target = true) (hP : ∀ c, P c → c ≠ target) :
    Text.hasChar target cs = false := by
  have hmark {c : Char} (hc : isPlain c = false) : (c == target) = false := by
    rw [beq_eq_false_iff_ne]
    rintro rfl
    simp [ht] at hc
  suffices hcut : (Scan.within 0).cutChar target cs = none by
    simp [Text.hasChar, Text.cutChar, hcut]
  induction h with
  | nil => rfl
  | @plain P c cs hc hPc _ ih =>
    have hct : (c == target) = false := beq_eq_false_iff_ne.2 (hP c hPc)
    simp [Scan.cutChar_cons, hct, Scan.next_within_of_isPlain hc, ih hP]
  | @literal P q body cs hq hbody _ ih =>
    obtain ⟨s, hs, he⟩ := (walks_cutChar target).literal hq hbody (s := Scan.within 0) rfl cs
    have hs' : s.next q = Scan.within 0 := hs
    simp [he, hs', ih hP]
  | @nest P o e inner cs ho he hinner _ _ ih =>
    have hot := hmark (c := o) (by simp [isPlain, ho])
    have het := hmark (c := e) (by simp [isPlain, he])
    obtain ⟨s, hs, hw⟩ := (walks_cutChar target).inner hinner (s := Scan.within 1) rfl (e :: cs)
    obtain rfl : s = Scan.within 1 := hs
    simp [Scan.cutChar_cons, hot, het, Scan.next_within_of_isOpening ho, hw,
      Scan.next_within_of_isClosing he, ih hP]

/-! ## 6. Words at top level -/

theorem walks_cutWord (w : List Char) :
    Walks Prod.fst (fun (s : Scan × Bool) c => (s.1.next c, isBlank c))
      (fun s => s.1.cutWord w s.2) where
  scan_next _ _ := rfl
  hidden s c rest h := by
    simp [Scan.cutWord_cons, h]

theorem startsWithWord_eq_false {w cs : List Char} {c : Char} (hw : IsWord w)
    (hc : isIdentChar c = false) : startsWithWord w (c :: cs) = false := by
  obtain ⟨hne, hall⟩ := hw
  cases w with
  | nil => exact absurd rfl hne
  | cons x w =>
    have hx : (x == c) = false := by
      rw [beq_eq_false_iff_ne]
      rintro rfl
      simp [hall x (by simp)] at hc
    simp [startsWithWord, List.isPrefixOf, hx]

/-- A literal at top level is passed over. -/
theorem Scan.cutWord_literal {w body : List Char} {q : Char} (hq : isQuote q = true)
    (hbody : LiteralBody q body) (afterBlank : Bool) (rest : List Char) :
    (Scan.within 0).cutWord w afterBlank (q :: (body ++ q :: rest)) =
      prepend (q :: (body ++ [q])) ((Scan.within 0).cutWord w false rest) := by
  obtain ⟨s, hs, he⟩ :=
    (walks_cutWord w).literal hq hbody (s := (Scan.within 0, afterBlank)) rfl rest
  have hs' : s.1.next q = Scan.within 0 := hs
  have hb : isBlank q = false := (classes_of_isQuote hq).1
  simpa only [hs', hb] using he

/-- A bracket at top level is passed over with what it holds.  No word starts with a bracket. -/
theorem Scan.cutWord_nest {P : Char → Prop} {w inner : List Char} {o e : Char} (hw : IsWord w)
    (ho : isOpening o = true) (he : isClosing e = true) (hinner : Balanced P inner)
    (afterBlank : Bool) (rest : List Char) :
    (Scan.within 0).cutWord w afterBlank (o :: (inner ++ e :: rest)) =
      prepend (o :: (inner ++ [e])) ((Scan.within 0).cutWord w false rest) := by
  obtain ⟨hob, -, -, hoi⟩ := classes_of_isOpening ho
  obtain ⟨heb, -, -, hei⟩ := classes_of_isClosing he
  obtain ⟨⟨s, ab⟩, hs, hwalk⟩ :=
    (walks_cutWord w).inner hinner (s := (Scan.within 1, false)) rfl (e :: rest)
  obtain rfl : s = Scan.within 1 := hs
  simp [Scan.cutWord_cons, startsWithWord_eq_false hw hoi, startsWithWord_eq_false hw hei, hob, heb,
    Scan.next_within_of_isOpening ho, Scan.next_within_of_isClosing he] at hwalk ⊢
  simp [hwalk]

/-- Whether a text ends here or goes on with a blank. -/
def Detached (rest : List Char) : Prop := ∀ c ∈ rest.head?, isBlank c = true

theorem detached_nil : Detached [] := by simp [Detached]

theorem detached_cons {c : Char} (h : isBlank c = true) (rest : List Char) :
    Detached (c :: rest) := by simp [Detached, h]

/-- **Within a chunk no word is found**, unless it starts there after a blank. -/
theorem Balanced.cutWord_chunk {w cs : List Char} (hw : IsWord w)
    (h : Balanced (fun c => isBlank c = false) cs) (rest : List Char) :
    (Scan.within 0).cutWord w false (cs ++ rest) = prepend cs ((Scan.within 0).cutWord w false rest) := by
  generalize hQ : (fun c => isBlank c = false) = Q at h
  induction h with
  | nil => simp
  | @plain Q c cs hc hQc _ ih =>
    subst hQ
    simp [Scan.cutWord_cons, Scan.next_within_of_isPlain hc, hQc, ih rfl]
  | @literal Q q body cs hq hbody _ ih =>
    simp [Scan.cutWord_literal hq hbody, ih hQ]
  | @nest Q o e inner cs ho he hinner _ _ ih =>
    simp [Scan.cutWord_nest hw ho he hinner, ih hQ]

theorem startsWithWord_cons {w cs : List Char} {x c : Char} :
    startsWithWord (x :: w) (c :: cs) = true ↔ x = c ∧ startsWithWord w cs = true := by
  simp [startsWithWord, List.isPrefixOf, and_assoc]

/-- A chunk that starts with a word and goes no further is the word. -/
theorem Balanced.eq_of_startsWithWord {w cs rest : List Char}
    (hw : ∀ c ∈ w, isIdentChar c = true) (h : Balanced (fun c => isBlank c = false) cs)
    (hrest : Detached rest) (hstarts : startsWithWord w (cs ++ rest) = true) : cs = w := by
  induction w generalizing cs with
  | nil =>
    cases h with
    | nil => rfl
    | plain _ hb => simp [startsWithWord, hb] at hstarts
    | literal hq => simp [startsWithWord, (classes_of_isQuote hq).1] at hstarts
    | nest ho => simp [startsWithWord, (classes_of_isOpening ho).1] at hstarts
  | cons x w ih =>
    have hword : IsWord (x :: w) := ⟨by simp, hw⟩
    cases h with
    | nil =>
      cases rest with
      | nil => simp [startsWithWord] at hstarts
      | cons r rest =>
        obtain ⟨rfl, -⟩ := startsWithWord_cons.1 hstarts
        have hr := hrest x (by simp)
        simp [isBlank_of_isIdentChar (hw x (by simp))] at hr
    | plain _ _ hcs =>
      obtain ⟨rfl, hmore⟩ := startsWithWord_cons.1 hstarts
      rw [ih (fun c hc => hw c (by simp [hc])) hcs hmore]
    | literal hq =>
      have hi := (classes_of_isQuote hq).2.2.2.1
      rw [List.cons_append, startsWithWord_eq_false hword hi] at hstarts
      exact absurd hstarts (by decide)
    | nest ho =>
      have hi := (classes_of_isOpening ho).2.2.2
      rw [List.cons_append, startsWithWord_eq_false hword hi] at hstarts
      exact absurd hstarts (by decide)

/-- No top-level occurrence of `w` is found in `cs`, whatever follows after a blank. -/
def Skips (w cs : List Char) : Prop :=
  ∀ (afterBlank : Bool) (rest : List Char), Detached rest →
    (Scan.within 0).cutWord w afterBlank (cs ++ rest) =
      prepend cs ((Scan.within 0).cutWord w false rest)

/-- **A chunk is passed over unless it is the word.** -/
theorem Balanced.skips {w cs : List Char} (hw : IsWord w)
    (h : Balanced (fun c => isBlank c = false) cs) (hne : cs ≠ []) (hcw : cs ≠ w) :
    Skips w cs := by
  intro afterBlank rest hrest
  have hstarts : startsWithWord w (cs ++ rest) = false := by
    rw [Bool.eq_false_iff]
    exact fun hs => hcw (h.eq_of_startsWithWord hw.2 hrest hs)
  have hflag : (Scan.within 0).cutWord w afterBlank (cs ++ rest) =
      (Scan.within 0).cutWord w false (cs ++ rest) := by
    cases cs with
    | nil => exact absurd rfl hne
    | cons c cs =>
      rw [List.cons_append] at hstarts ⊢
      simp [Scan.cutWord_cons, hstarts]
  rw [hflag, h.cutWord_chunk hw]

/-- **Texts that are passed over stay so when a blank joins them.** -/
theorem Skips.join {w as bs : List Char} (ha : Skips w as) (hb : Skips w bs) :
    Skips w (as ++ ' ' :: bs) := by
  intro afterBlank rest hrest
  have hstep : (Scan.within 0).cutWord w false (' ' :: (bs ++ rest)) =
      prepend [' '] ((Scan.within 0).cutWord w true (bs ++ rest)) := by
    rw [Scan.cutWord_cons, Scan.next_within_of_isPlain (by decide)]
    rfl
  rw [List.append_assoc, List.cons_append, ha _ _ (detached_cons (by decide) _), hstep,
    hb _ _ hrest]
  simp

theorem Skips.cutWord {w cs : List Char} (h : Skips w cs) : cutWord w cs = none := by
  have := h false [] detached_nil
  simpa [Text.cutWord] using this

theorem Skips.hasWord {w cs : List Char} (h : Skips w cs) : hasWord w cs = false := by
  simp [Text.hasWord, h.cutWord]

/-- A word between two blanks is where the text is cut. -/
theorem Scan.cutWord_blank_word {w : List Char} (hw : IsWord w) {b c : Char}
    (hb : isBlank b = true) (hc : isBlank c = true) (afterBlank : Bool) (rest : List Char) :
    (Scan.within 0).cutWord w afterBlank (b :: (w ++ c :: rest)) = some ([b], c :: rest) := by
  rw [Scan.cutWord_cons, Scan.next_within_of_isPlain (isPlain_of_isBlank hb),
    startsWithWord_eq_false hw (isIdentChar_of_isBlank hb), hb]
  obtain ⟨hne, hall⟩ := hw
  cases w with
  | nil => exact absurd rfl hne
  | cons x w =>
    obtain ⟨hq, -, hcl⟩ := isPlain_iff.1 (isPlain_of_isIdentChar (hall x (by simp)))
    have hshow : (Scan.within 0).shows x = true := by
      simp [Scan.within, Scan.shows, hq, hcl]
    have hstarts : startsWithWord (x :: w) (x :: (w ++ c :: rest)) = true := by
      simp [startsWithWord, List.isPrefixOf, hc]
    simp [Scan.cutWord_cons, hshow, hstarts]

/-- **The first occurrence after a text that is passed over** is where the text is cut. -/
theorem Skips.cutWord_word {w cs : List Char} (hw : IsWord w) (h : Skips w cs)
    (afterBlank : Bool) (rest : List Char) :
    (Scan.within 0).cutWord w afterBlank (cs ++ ' ' :: (w ++ ' ' :: rest)) =
      some (cs ++ [' '], ' ' :: rest) := by
  rw [h _ _ (detached_cons (by decide) _), Scan.cutWord_blank_word hw (by decide) (by decide)]
  rfl

/-- An occurrence of a word right after a balanced text and a blank does not stay unseen. -/
theorem Balanced.isSome_cutWord {P : Char → Prop} {w cs : List Char} (hw : IsWord w)
    (h : Balanced P cs) {b c : Char} (hb : isBlank b = true) (hc : isBlank c = true)
    (afterBlank : Bool) (rest : List Char) :
    ((Scan.within 0).cutWord w afterBlank (cs ++ b :: (w ++ c :: rest))).isSome = true := by
  induction h generalizing afterBlank with
  | nil => rw [List.nil_append, Scan.cutWord_blank_word hw hb hc]; rfl
  | @plain P d cs hd _ _ ih =>
    rw [List.cons_append, Scan.cutWord_cons, Scan.next_within_of_isPlain hd]
    split
    · rfl
    · rw [isSome_prepend]
      exact ih _
  | literal hq hbody _ ih =>
    rw [List.cons_append, List.append_assoc, List.cons_append, Scan.cutWord_literal hq hbody,
      isSome_prepend]
    exact ih _
  | nest ho he hinner _ _ ih =>
    rw [List.cons_append, List.append_assoc, List.cons_append, Scan.cutWord_nest hw ho he hinner,
      isSome_prepend]
    exact ih _

/-- **A text in which a word is passed over does not end with a blank and the word.** -/
theorem Skips.getLast?_stem {P : Char → Prop} {w stem : List Char} (hw : IsWord w)
    (hbal : Balanced P (stem ++ w)) (h : Skips w (stem ++ w)) :
    stem.getLast?.any isBlank = false := by
  rcases List.eq_nil_or_concat stem with rfl | ⟨init, b, rfl⟩
  · rfl
  · rw [List.concat_eq_append] at hbal h ⊢
    by_cases hb : isBlank b = true
    · have hplain : ∀ c ∈ w, isPlain c = true := fun c hc => isPlain_of_isIdentChar (hw.2 c hc)
      have hinit : Balanced P init := (hbal.of_append_word hplain).of_concat (isPlain_of_isBlank hb)
      have hsome := hinit.isSome_cutWord hw hb (c := ' ') (by decide) false []
      have hnone : ((Scan.within 0).cutWord w false (init ++ b :: (w ++ [' ']))) = none := by
        simpa [Scan.cutWord_cons] using h false [' '] (detached_cons (by decide) _)
      rw [hnone] at hsome
      exact absurd hsome (by decide)
    · simpa using hb

/-! ## 7. Splitting at a word -/

theorem Skips.blank_cons {w cs : List Char} (hw : IsWord w) (h : Skips w cs) :
    Skips w (' ' :: cs) := by
  intro afterBlank rest hrest
  rw [List.cons_append, Scan.cutWord_cons, startsWithWord_eq_false hw (by decide),
    Scan.next_within_of_isPlain (by decide), h _ _ hrest]
  simp

/-- Texts with a word between each two. -/
def joinWith (w : List Char) (first : List Char) : List (List Char) → List Char
  | [] => first
  | second :: rest => first ++ ' ' :: (w ++ ' ' :: joinWith w second rest)

theorem joinWith_concat (w first last : List Char) (rest : List (List Char)) :
    joinWith w first (rest ++ [last]) = joinWith w first rest ++ ' ' :: (w ++ ' ' :: last) := by
  induction rest generalizing first with
  | nil => rfl
  | cons second rest ih => simp [joinWith, ih]

/-- The parts of joined texts: each keeps the blanks beside it. -/
def partsOf (first : List Char) : List (List Char) → List (List Char)
  | [] => [first]
  | second :: rest => (first ++ [' ']) :: partsOf (' ' :: second) rest

/-- **Splitting at the word undoes the joining**, blanks apart. -/
theorem splitWord_joinWith {w first : List Char} {rest : List (List Char)} (hw : IsWord w)
    (hfirst : Skips w first) (hrest : ∀ cs ∈ rest, Skips w cs) :
    splitWord w (joinWith w first rest) = partsOf first rest := by
  induction rest generalizing first with
  | nil => rw [splitWord_eq, joinWith, hfirst.cutWord]; rfl
  | cons second rest ih =>
    have hcut : cutWord w (joinWith w first (second :: rest)) =
        some (first ++ [' '], ' ' :: joinWith w second rest) := hfirst.cutWord_word hw _ _
    have hblank : ' ' :: joinWith w second rest = joinWith w (' ' :: second) rest := by
      cases rest <;> rfl
    rw [splitWord_eq, hcut]
    simp only [hblank, partsOf]
    rw [ih ((hrest second (by simp)).blank_cons hw) fun cs hcs => hrest cs (by simp [hcs])]

end TemplateCompiler.Text
