import TemplateCompiler.Proofs.Template.Placement
import TemplateCompiler.Proofs.Text.Splitting
import TemplateCompiler.Template.Tag

/-! # The form of a tag

A tag is a keyword and what follows it, and a `for` or a `set` goes on with a name and an
expression.  This module says what these parts are by looking at places: the keyword is the first
word, an `in` is the first of its occurrences in the outline, and an equals sign is the first one
that the outline shows.

The compiler comes to the same parts in another way.  It takes as many characters off a tag as its
keyword has, and it finds an `in` or an equals sign by a scan that stops there.  That the parts are
the same is shown once for each of them: `remainder_trim` for what follows a keyword, `cutWord_eq`
and `cutChar_eq` for the two cuts.
-/

namespace TemplateCompiler.Template

open Text

/-! ## 1. The parts of a tag -/

/-- A text without the blanks at its ends. -/
def stripped (cs : List Char) : List Char := keptText true true cs

/-- The first word of a tag, which ends at a blank or with the tag. -/
def firstWord (tag : List Char) : List Char := (stripped tag).takeWhile fun c => !isBlank c

/-- What follows the first word of a tag. -/
def afterFirstWord (tag : List Char) : List Char :=
  stripped ((stripped tag).dropWhile fun c => !isBlank c)

/-- The keywords, each with how it is written. -/
def keywordTable : List (List Char × Keyword) :=
  [("if".toList, .ifWord), ("elif".toList, .elifWord), ("else".toList, .elseWord),
   ("endif".toList, .endifWord), ("for".toList, .forWord), ("endfor".toList, .endforWord),
   ("set".toList, .setWord)]

/-- The keyword of a tag. -/
def keyword? (tag : List Char) : Option Keyword := keywordTable.lookup (firstWord tag)

/-- The text before the first of some places, and the text after the `width` characters that stand
there. -/
def partsAt (width : Nat) (places : List (Nat × Char)) (cs : List Char) :
    Option (List Char × List Char) :=
  places.head?.map fun p => (cs.take p.1, cs.drop (p.1 + width))

/-- A name and an expression.  There are three faults: that there are not two parts, that the first
is no name, and that the second is blank.  The name is looked at first. -/
def named (form name missing : TagFault) :
    Option (List Char × List Char) → Except TagFault (List Char × List Char)
  | none => .error form
  | some (before, after) =>
    if !isIdentifier (stripped before) then .error name
    else if (stripped after).isEmpty then .error missing
    else .ok (stripped before, stripped after)

/-- The condition after an `if` or an `elif`. -/
def conditionForm (rest : List Char) : Except TagFault (List Char) :=
  if rest = [] then .error .missingCondition else .ok rest

/-- The variable and the items after a `for`, around the first `in`. -/
def loopForm (rest : List Char) : Except TagFault (List Char × List Char) :=
  named .forForm .loopVariable .missingIterable
    (partsAt 2 (occurrences "in".toList rest) rest)

/-- The target and the value after a `set`, around the first equals sign. -/
def assignmentForm (rest : List Char) : Except TagFault (List Char × List Char) :=
  named .setForm .assignmentTarget .missingValue
    (partsAt 1 ((outline rest).filter fun item => item.2 == '=') rest)

/-! ## 2. Words -/

theorem stripped_eq_trim (cs : List Char) : stripped cs = trim cs := rfl

/-- What blanks are lost at the end of a text does not change its first word. -/
theorem takeWhile_trimEnd (cs : List Char) :
    (trimEnd cs).takeWhile (fun c => !isBlank c) = cs.takeWhile fun c => !isBlank c := by
  obtain ⟨post, hpost, hcs⟩ := exists_eq_trimEnd cs
  have hnone : post.takeWhile (fun c => !isBlank c) = [] := by
    cases post with
    | nil => rfl
    | cons c post => simp [hpost c (by simp)]
  conv => rhs; rw [hcs]
  rw [List.takeWhile_append]
  split
  · rename_i hall
    rw [hnone, List.append_nil]
    exact (List.takeWhile_prefix _).eq_of_length hall
  · rfl

theorem headWord_eq (tag : List Char) : headWord tag = firstWord tag :=
  (takeWhile_trimEnd (trimStart tag)).symm

theorem lookup_map_word (ks : List Keyword) (w : List Char) :
    (ks.map fun k => (k.word, k)).lookup w = ks.find? fun k => k.word == w := by
  induction ks with
  | nil => rfl
  | cons k ks ih => rw [List.map_cons, List.lookup_cons, List.find?_cons, BEq.comm, ih]

theorem ofWord?_headWord (tag : List Char) : Keyword.ofWord? (headWord tag) = keyword? tag := by
  have htable : keywordTable = Keyword.all.map fun k => (k.word, k) := rfl
  rw [headWord_eq, keyword?, htable, lookup_map_word]
  rfl

/-- A keyword is the first word of its tag. -/
theorem firstWord_of_keyword? {tag : List Char} {k : Keyword} (h : keyword? tag = some k) :
    firstWord tag = k.word := by
  rw [← ofWord?_headWord] at h
  rw [← headWord_eq, Keyword.word_of_ofWord? h]

/-- **What follows a keyword is what follows the first word.** -/
theorem remainder_trim {tag : List Char} {k : Keyword} (h : keyword? tag = some k) :
    remainder k (trim tag) = afterFirstWord tag := by
  have hsplit := List.takeWhile_append_dropWhile (p := fun c => !isBlank c) (l := stripped tag)
  have hdrop : (stripped tag).drop k.word.length =
      (stripped tag).dropWhile fun c => !isBlank c := by
    conv => lhs; rw [← hsplit]
    rw [← firstWord_of_keyword? h, firstWord, List.drop_left]
  rw [afterFirstWord, ← hdrop]
  rfl

/-! ## 3. Cuts -/

/-- The parts around a place that is found, and what is found behind a place that is passed over. -/
theorem partsAt_cons (width place : Nat) (c : Char) (places : List (Nat × Char))
    (cs : List Char) :
    partsAt width ((place, c) :: places) cs = some (cs.take place, cs.drop (place + width)) := rfl

/-- A cut at a shown word, behind a text that has been passed over. -/
theorem prepend_cutWord (w : List Char) (s : Scan) (pre cs : List Char) :
    prepend pre (s.cutWord w (pre.getLast?.any isBlank) cs) =
      partsAt w.length ((s.items pre.length cs).filter fun item => standsAt w (pre ++ cs) item.1)
        (pre ++ cs) := by
  induction cs generalizing s pre with
  | nil => rfl
  | cons c cs ih =>
    have hmore := ih (s.next c) (pre ++ [c])
    rw [List.append_assoc, List.singleton_append, List.length_append, List.length_singleton,
      List.getLast?_concat] at hmore
    rw [Scan.cutWord_cons, Scan.items_cons, List.filter_append]
    by_cases hshows : s.shows c = true
    · rw [if_pos hshows, List.filter_cons, List.filter_nil, standsAt_length, hshows, Bool.and_true]
      split
      · rw [List.singleton_append, partsAt_cons, List.take_left, List.drop_length_add_append]
        simp
      · rw [prepend_prepend]
        exact hmore
    · rw [if_neg hshows, if_neg (by simp [hshows]), prepend_prepend]
      exact hmore

/-- **The cut at a word is at its first occurrence.** -/
theorem cutWord_eq (w cs : List Char) :
    cutWord w cs = partsAt w.length (occurrences w cs) cs := by
  have h := prepend_cutWord w Scan.start [] cs
  rwa [prepend_nil] at h

/-- A cut at a shown character, behind a text that has been passed over. -/
theorem prepend_cutChar (target : Char) (s : Scan) (pre cs : List Char) :
    prepend pre (s.cutChar target cs) =
      partsAt 1 ((s.items pre.length cs).filter fun item => item.2 == target) (pre ++ cs) := by
  induction cs generalizing s pre with
  | nil => rfl
  | cons c cs ih =>
    have hmore := ih (s.next c) (pre ++ [c])
    rw [List.append_assoc, List.singleton_append, List.length_append,
      List.length_singleton] at hmore
    rw [Scan.cutChar_cons, Scan.items_cons, List.filter_append]
    by_cases hshows : s.shows c = true
    · rw [if_pos hshows, List.filter_cons, List.filter_nil, hshows, Bool.true_and]
      split
      · rw [List.singleton_append, partsAt_cons, List.take_left, List.drop_length_add_append]
        simp
      · rw [prepend_prepend]
        exact hmore
    · rw [if_neg hshows, if_neg (by simp [hshows]), prepend_prepend]
      exact hmore

/-- **The cut at a character is at the first one in the outline.** -/
theorem cutChar_eq (target : Char) (cs : List Char) :
    cutChar target cs =
      partsAt 1 ((outline cs).filter fun item => item.2 == target) cs := by
  have h := prepend_cutChar target Scan.start [] cs
  rwa [prepend_nil] at h

/-! ## 4. Forms -/

theorem condition_eq (rest : List Char) : condition rest = conditionForm rest := by
  rw [condition, conditionForm]
  simp only [List.isEmpty_iff]

theorem loopHead_eq_loopForm (rest : List Char) : loopHead rest = loopForm rest := by
  rw [loopHead, loopForm, cutWord_eq]
  change _ = named _ _ _ (partsAt "in".toList.length _ _)
  cases partsAt "in".toList.length (occurrences "in".toList rest) rest with
  | none => rfl
  | some parts => rfl

theorem assignment_eq_assignmentForm (rest : List Char) :
    assignment rest = assignmentForm rest := by
  rw [assignment, assignmentForm, cutChar_eq]
  cases partsAt 1 ((outline rest).filter fun item => item.2 == '=') rest with
  | none => rfl
  | some parts => rfl

/-- What is read as a name and an expression. -/
theorem named_eq_ok {form name missing : TagFault} {parts : Option (List Char × List Char)}
    {v e : List Char} (h : named form name missing parts = .ok (v, e)) :
    isIdentifier v = true ∧ Tight e ∧ ∃ before after, parts = some (before, after) ∧
      e <:+: after := by
  obtain _ | ⟨before, after⟩ := parts
  · cases h
  · rw [named] at h
    split at h
    · cases h
    · rename_i hname
      split at h
      · cases h
      · rename_i hne
        cases h
        have hsome : stripped after ≠ [] := by simpa using hne
        exact ⟨by simpa using hname, tight_trim hsome, before, after, rfl, isInfix_trim after⟩

end TemplateCompiler.Template
