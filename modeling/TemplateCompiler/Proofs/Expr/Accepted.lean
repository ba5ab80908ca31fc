import TemplateCompiler.Expr.Inner
import TemplateCompiler.Proofs.Outcome
import TemplateCompiler.Proofs.Text.Balanced

/-! # How a text that is read was taken apart

If a text is read as an expression, then it was cut at its words into texts that are read as well,
down to chains without any word.  `Accepted` says so, one constructor for each way to cut, with
what the reader looked for before it cut in this way (`Expr.accepted_of_read`).

A property of texts is `Compositional` if chains have it, if words and blanks beside a text do not
disturb it, and if it goes over to two texts with a word between them.  Such a property holds of
every text that is read (`Compositional.of_accepted`): the ways to cut are told apart there, once.
-/

namespace TemplateCompiler

open Text Reading

/-- The name of a test, after the word `is`. -/
inductive IsTestName : List Char → Prop
  | defined : IsTestName "defined".toList
  | undefined : IsTestName "undefined".toList
  | negated {name rest : List Char} (h : afterKeyword? "not".toList name = some rest)
      (hrest : rest = "defined".toList ∨ rest = "undefined".toList) : IsTestName name

/-- A text that is read, by the way in which it is cut. -/
inductive Accepted : List Char → Prop
  /-- At the words `or`, or else at the words `and`. -/
  | joined {cs w first second : List Char} {rest : List (List Char)}
      (hw : w = "or".toList ∨ w = "and".toList ∧ hasWord "or".toList (trim cs) = false)
      (hsplit : splitWord w (trim cs) = first :: second :: rest)
      (h : ∀ p ∈ first :: second :: rest, Accepted p) : Accepted cs
  /-- After a `not` at its start. -/
  | negated {cs rest : List Char} (hnot : afterKeyword? "not".toList (trim cs) = some rest)
      (h : Accepted rest) : Accepted cs
  /-- At the first word `in`. -/
  | member {cs before after : List Char} (hnot : afterKeyword? "not".toList (trim cs) = none)
      (hcut : cutWord "in".toList (trim cs) = some (before, after))
      (hitem : Accepted (memberItem before).1) (hcontainer : Accepted (trim after)) : Accepted cs
  /-- At the word `is`. -/
  | test {cs subject name : List Char} (hloose : hasLooserWord (trim cs) = false)
      (hcut : cutWord "is".toList (trim cs) = some (subject, name))
      (hname : IsTestName (trim name)) (h : Accepted (trim subject)) : Accepted cs
  /-- Nowhere. -/
  | chain {cs : List Char} {e : Expr} (hloose : hasLooserWord (trim cs) = false)
      (h : chain Expr.read (trim cs) ((trim cs).length + 1) none false (trim cs) = .ok e) :
      Accepted cs

/-! ## 1. What the parts of a text have gone through -/

/-- A test that is read has one of the two names, and its subject is read. -/
theorem isTestName_and_subject_ok_of_test {self : Reader} {source subject name : List Char} {e : Expr}
    (h : test self source subject name = .ok e) :
    IsTestName name ∧ ∃ inner, self subject = .ok inner := by
  have hnamed (negated : Bool) (n : List Char) (h : (if n = "defined".toList then
        return .defined negated (← self subject)
      else if n = "undefined".toList then return .defined (!negated) (← self subject)
      else blame source (.error (.unsupportedTest n))) = Except.ok e) :
      (n = "defined".toList ∨ n = "undefined".toList) ∧ ∃ inner, self subject = .ok inner := by
    split at h
    · rename_i hn
      obtain ⟨inner, hinner, -⟩ := eq_ok_of_bind h
      exact ⟨.inl hn, inner, hinner⟩
    split at h
    · rename_i hn
      obtain ⟨inner, hinner, -⟩ := eq_ok_of_bind h
      exact ⟨.inr hn, inner, hinner⟩
    · cases h
  unfold test at h
  cases hnot : afterKeyword? "not".toList name with
  | none =>
    rw [hnot] at h
    obtain ⟨hn, hinner⟩ := hnamed false name h
    rcases hn with rfl | rfl
    · exact ⟨.defined, hinner⟩
    · exact ⟨.undefined, hinner⟩
  | some rest =>
    rw [hnot] at h
    obtain ⟨hn, hinner⟩ := hnamed true rest h
    exact ⟨.negated hnot hn, hinner⟩

theorem eq_ok_of_part {self : Reader} {source cs : List Char} {e : Expr}
    (h : part self source cs = .ok e) : self cs = .ok e := by
  unfold part at h
  split at h
  · cases h
  · exact h

/-- The parts of a boolean expression are all read. -/
theorem parts_ok_of_joinParts {self : Reader} {source first : List Char} {rest : List (List Char)}
    {join : Expr → Expr → Expr} {e : Expr}
    (h : joinParts self source join first rest = .ok e) :
    ∀ p ∈ first :: rest, ∃ inner, self p = .ok inner := by
  obtain ⟨acc, hacc, hfold⟩ := eq_ok_of_bind h
  clear h
  intro p hp
  rw [List.mem_cons] at hp
  rcases hp with rfl | hp
  · exact ⟨acc, eq_ok_of_part hacc⟩
  clear hacc
  induction rest generalizing acc with
  | nil => cases hp
  | cons cs rest ih =>
    rw [List.foldlM_cons] at hfold
    obtain ⟨acc', hacc', hmore⟩ := eq_ok_of_bind hfold
    obtain ⟨b, hb, -⟩ := eq_ok_of_bind hacc'
    rw [List.mem_cons] at hp
    rcases hp with rfl | hp
    · exact ⟨b, eq_ok_of_part hb⟩
    · exact ih _ hmore hp

/-- The two sides of a membership test are read. -/
theorem sides_ok_of_membership {self : Reader} {source before after : List Char} {e : Expr}
    (h : membership self source before after = .ok e) :
    (∃ item, self (memberItem before).1 = .ok item) ∧
      ∃ container, self (trim after) = .ok container := by
  unfold membership at h
  dsimp only at h
  split at h
  · cases h
  · obtain ⟨container, hc, h⟩ := eq_ok_of_bind h
    obtain ⟨item, hi, -⟩ := eq_ok_of_bind h
    exact ⟨⟨item, hi⟩, container, hc⟩

/-- A text that is one part only does not have the word. -/
theorem hasWord_eq_false_of_splitWord {w cs : List Char}
    (h : ∀ first second rest, splitWord w cs ≠ first :: second :: rest) :
    hasWord w cs = false := by
  unfold hasWord
  cases hcut : cutWord w cs with
  | none => rfl
  | some cut =>
    obtain ⟨before, after⟩ := cut
    have hne : splitWord w after ≠ [] := by
      rw [splitWord_eq]
      split <;> simp
    obtain ⟨second, rest, hsplit⟩ := List.exists_cons_of_ne_nil hne
    refine absurd ?_ (h before second rest)
    rw [splitWord_eq, hcut, ← hsplit]

/-! ## 2. Whole texts -/

/-- **A text without an `is` test, or with a looser word, was cut at a looser word or is a
chain.** -/
theorem accepted_of_boolean {cs : List Char} {e : Expr}
    (hshorter : ∀ t : List Char, t.length < (trim cs).length →
      ∀ e, Expr.read t = .ok e → Accepted t)
    (h : boolean Expr.read (trim cs) = .ok e) : Accepted cs := by
  unfold boolean at h
  split at h
  · rename_i first second rest hsplit
    refine .joined (.inl rfl) hsplit fun p hp => ?_
    obtain ⟨inner, hinner⟩ := parts_ok_of_joinParts h p hp
    exact hshorter p (length_lt_of_mem_splitWord (by decide) hsplit hp) _ hinner
  rename_i hor
  have hor := hasWord_eq_false_of_splitWord hor
  split at h
  · rename_i first second rest hsplit
    refine .joined (.inr ⟨rfl, hor⟩) hsplit fun p hp => ?_
    obtain ⟨inner, hinner⟩ := parts_ok_of_joinParts h p hp
    exact hshorter p (length_lt_of_mem_splitWord (by decide) hsplit hp) _ hinner
  rename_i hand
  have hand := hasWord_eq_false_of_splitWord hand
  split at h
  · rename_i rest hnot
    obtain ⟨inner, hinner, -⟩ := eq_ok_of_bind h
    exact .negated hnot (hshorter rest (length_afterKeyword?_lt (by decide) hnot) _ hinner)
  rename_i hnot
  split at h
  · rename_i before after hcut
    have hl := length_cutWord hcut
    have hin : "in".toList.length = 2 := by decide
    have hb := length_memberItem_le before
    have ha := length_trim_le after
    obtain ⟨⟨item, hitem⟩, container, hcontainer⟩ := sides_ok_of_membership h
    exact .member hnot hcut (hshorter _ (by omega) _ hitem) (hshorter _ (by omega) _ hcontainer)
  · rename_i hin
    have hin : hasWord "in".toList (trim cs) = false := by rw [hasWord, hin]; rfl
    refine .chain ?_ h
    rw [hasLooserWord, hor, hand, hin, hnot]
    rfl

/-- **Every text that is read was taken apart in one of these ways.** -/
theorem Expr.accepted_of_read {cs : List Char} {e : Expr} (h : Expr.read cs = .ok e) :
    Accepted cs := by
  induction hn : cs.length using Nat.strongRecOn generalizing cs e with
  | _ n ih =>
    subst hn
    have ht := length_trim_le cs
    have hshorter : ∀ t : List Char, t.length < (trim cs).length →
        ∀ e, Expr.read t = .ok e → Accepted t :=
      fun t hlt e hread => ih _ (by omega) hread rfl
    rw [Expr.read_eq, readWith] at h
    split at h
    · cases h
    split at h
    · rename_i subject name hcut
      split at hcut
      · cases hcut
      · rename_i hloose
        have hl := length_cutWord hcut
        have his : "is".toList.length = 2 := by decide
        have hs := length_trim_le subject
        obtain ⟨hname, inner, hinner⟩ := isTestName_and_subject_ok_of_test h
        exact .test (by simpa using hloose) hcut hname (hshorter _ (by omega) _ hinner)
    · exact accepted_of_boolean hshorter h

/-! ## 3. Words and blanks -/

namespace Reading

/-- A blank or a character of a name. -/
def isWordChar (c : Char) : Bool := isBlank c || isIdentChar c

/-- A text of words. -/
def Wordy (cs : List Char) : Prop := ∀ c ∈ cs, isWordChar c = true

theorem wordy_of_isBlank {cs : List Char} (h : ∀ c ∈ cs, isBlank c = true) : Wordy cs :=
  fun c hc => by simp [isWordChar, h c hc]

theorem wordy_of_isWord {w : List Char} (h : IsWord w) : Wordy w :=
  fun c hc => by simp [isWordChar, h.2 c hc]

theorem Wordy.append {as bs : List Char} (ha : Wordy as) (hb : Wordy bs) : Wordy (as ++ bs) := by
  intro c hc
  rcases List.mem_append.1 hc with hc | hc
  · exact ha c hc
  · exact hb c hc

theorem eq_of_afterKeyword? {w cs rest : List Char} (h : afterKeyword? w cs = some rest) :
    ∃ more, cs = w ++ more ∧ rest = trim more := by
  unfold afterKeyword? at h
  split at h
  · rename_i hprefix
    obtain ⟨more, rfl⟩ := List.isPrefixOf_iff_prefix.1 hprefix
    rw [List.drop_left] at h
    dsimp only at h
    split at h
    · cases h
      exact ⟨more, rfl, rfl⟩
    · cases h
  · cases h

/-- Behind the item of a membership test there are blanks and perhaps a `not`. -/
theorem exists_eq_memberItem (before : List Char) :
    ∃ tail, before = (memberItem before).1 ++ tail ∧ Wordy tail := by
  obtain ⟨post, hpost, hleft⟩ := exists_eq_trimEnd before
  unfold memberItem
  dsimp only
  split
  · rename_i hnot
    rw [Bool.and_eq_true] at hnot
    obtain ⟨stem, hstem⟩ := List.isSuffixOf_iff_suffix.1 hnot.1
    have htake : (trimEnd before).take ((trimEnd before).length - 3) = stem := by
      rw [← hstem]
      simp
    obtain ⟨blanks, hblanks, hitem⟩ := exists_eq_trimEnd stem
    have hword : Wordy "not".toList := wordy_of_isWord (by decide)
    refine ⟨blanks ++ ("not".toList ++ post), ?_,
      (wordy_of_isBlank hblanks).append (hword.append (wordy_of_isBlank hpost))⟩
    rw [htake, ← List.append_assoc, ← hitem, ← List.append_assoc, hstem]
    exact hleft
  · exact ⟨post, hleft, wordy_of_isBlank hpost⟩

theorem wordy_of_isTestName {name : List Char} (h : IsTestName name) : Wordy name := by
  have hdefined : Wordy "defined".toList := wordy_of_isWord (by decide)
  have hundefined : Wordy "undefined".toList := wordy_of_isWord (by decide)
  have hword : Wordy "not".toList := wordy_of_isWord (by decide)
  cases h with
  | defined => exact hdefined
  | undefined => exact hundefined
  | negated hnot hrest =>
    obtain ⟨more, rfl, htrim⟩ := eq_of_afterKeyword? hnot
    obtain ⟨pre, post, hpre, hpost, hmore⟩ := exists_eq_trim more
    have hname : Wordy (trim more) := by
      rw [← htrim]
      rcases hrest with rfl | rfl
      · exact hdefined
      · exact hundefined
    rw [hmore]
    exact hword.append ((wordy_of_isBlank hpre).append (hname.append (wordy_of_isBlank hpost)))

/-- A cut leaves a blank on either side of the word. -/
theorem blanks_around_of_cutWord {w : List Char} {s : Scan} {afterBlank : Bool}
    {cs before after : List Char} (h : s.cutWord w afterBlank cs = some (before, after)) :
    (before = [] ∧ afterBlank = true ∨ ∃ init b, before = init ++ [b] ∧ isBlank b = true) ∧
      ∃ c rest, after = c :: rest ∧ isBlank c = true := by
  induction cs generalizing s afterBlank before with
  | nil => cases h
  | cons d cs ih =>
    rw [Scan.cutWord_cons] at h
    split at h
    · rename_i hstop
      simp only [Bool.and_eq_true, startsWithWord] at hstop
      obtain ⟨⟨hflag, -⟩, -, hnext⟩ := hstop
      cases h
      refine ⟨.inl ⟨rfl, hflag⟩, ?_⟩
      cases hdrop : (d :: cs).drop w.length with
      | nil =>
        rw [hdrop] at hnext
        cases hnext
      | cons c rest =>
        rw [hdrop] at hnext
        exact ⟨c, rest, rfl, hnext⟩
    · obtain ⟨⟨before', after'⟩, hmore, he⟩ := Option.map_eq_some_iff.1 h
      cases he
      obtain ⟨hbefore, hafter⟩ := ih hmore
      refine ⟨.inr ?_, hafter⟩
      rcases hbefore with ⟨rfl, hd⟩ | ⟨init, b, rfl, hb⟩
      · exact ⟨[], d, rfl, hd⟩
      · exact ⟨d :: init, b, rfl, hb⟩

/-! ## 4. Statements about all texts that are read -/

/-- A word that joins two texts. -/
def IsCutWord (w : List Char) : Prop :=
  w = "or".toList ∨ w = "and".toList ∨ w = "in".toList

/-- What holds of chains, still holds with words and blanks beside them, and goes over to two texts
that a word joins. -/
structure Compositional (P : List Char → Prop) : Prop where
  chain {cs : List Char} {e : Expr}
    (h : chain Expr.read cs (cs.length + 1) none false cs = .ok e) : P cs
  wordy_append {as bs : List Char} (ha : Wordy as) (hb : P bs) : P (as ++ bs)
  append_wordy {as bs : List Char} (ha : P as) (hb : Wordy bs) : P (as ++ bs)
  join {w as bs : List Char} {b c : Char} (hw : IsCutWord w) (hb : isBlank b = true)
    (hc : isBlank c = true) (has : P (as ++ [b])) (hbs : P (c :: bs)) :
    P (as ++ [b] ++ w ++ c :: bs)

section Compositional

variable {P : List Char → Prop}

theorem Compositional.of_trim (hP : Compositional P) {cs : List Char} (h : P (trim cs)) : P cs := by
  obtain ⟨pre, post, hpre, hpost, hcs⟩ := exists_eq_trim cs
  rw [hcs]
  exact hP.wordy_append (wordy_of_isBlank hpre) (hP.append_wordy h (wordy_of_isBlank hpost))

theorem Compositional.of_cutWord (hP : Compositional P) {w cs before after : List Char}
    (hw : IsCutWord w) (hcut : cutWord w cs = some (before, after)) (hbefore : P before)
    (hafter : P after) : P cs := by
  obtain ⟨hblank, c, rest, rfl, hc⟩ := blanks_around_of_cutWord hcut
  rcases hblank with ⟨-, hstart⟩ | ⟨init, b, rfl, hb⟩
  · cases hstart
  · rw [Scan.eq_of_cutWord hcut]
    exact hP.join hw hb hc hbefore hafter

theorem Compositional.of_splitWord (hP : Compositional P) {w cs : List Char} (hw : IsCutWord w)
    (h : ∀ p ∈ splitWord w cs, P p) : P cs := by
  fun_induction splitWord w cs with
  | case1 cs _ => exact h cs (by simp)
  | case2 cs before after hcut ih =>
    exact hP.of_cutWord hw hcut (h before (by simp)) (ih fun p hp => h p (by simp [hp]))

/-- **A compositional property holds of every text that is read.** -/
theorem Compositional.of_accepted (hP : Compositional P) {cs : List Char} (h : Accepted cs) :
    P cs := by
  induction h with
  | @joined cs w _ _ _ hw hsplit _ ih =>
    have hcut : IsCutWord w := hw.imp_right fun hand => .inl hand.1
    exact hP.of_trim (hP.of_splitWord hcut (hsplit ▸ ih))
  | negated hnot _ ih =>
    obtain ⟨more, hcs, rfl⟩ := eq_of_afterKeyword? hnot
    have hword : Wordy "not".toList := wordy_of_isWord (by decide)
    refine hP.of_trim ?_
    rw [hcs]
    exact hP.wordy_append hword (hP.of_trim ih)
  | @member cs before after _ hcut _ _ ihitem ihcontainer =>
    obtain ⟨tail, hbefore, htail⟩ := exists_eq_memberItem before
    have hitem : P before := by
      rw [hbefore]
      exact hP.append_wordy ihitem htail
    exact hP.of_trim (hP.of_cutWord (.inr (.inr rfl)) hcut hitem (hP.of_trim ihcontainer))
  | @test cs subject name _ hcut hname _ ih =>
    obtain ⟨pre, post, hpre, hpost, htrim⟩ := exists_eq_trim name
    have his : Wordy "is".toList := wordy_of_isWord (by decide)
    have hname : Wordy name := by
      rw [htrim]
      exact (wordy_of_isBlank hpre).append
        ((wordy_of_isTestName hname).append (wordy_of_isBlank hpost))
    refine hP.of_trim ?_
    rw [Scan.eq_of_cutWord hcut, List.append_assoc]
    exact hP.append_wordy (hP.of_trim ih) (his.append hname)
  | chain _ h => exact hP.of_trim (hP.chain h)

end Compositional

end Reading

end TemplateCompiler
