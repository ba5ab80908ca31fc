import TemplateCompiler.Text.Identifier

/-! # Words in a text

Names, numbers and the keywords of expressions are runs of characters of one kind, and a reader
takes as many of them as there are.  What is found in a printed text is therefore only what was
printed if the text does not go on with such a character.

A word ends where the text ends or goes on with something that is no character of a name
(`WordEnd`).  Then taking characters of names gives the word and leaves what follows it
(`takeWhile_append_of_wordEnd`); for runs of another kind there is `takeWhile_append_of_head`.

Section 1 says what characters names are made of.  Digits are characters of names too, but none that
a name begins with.
-/

namespace TemplateCompiler.Text

/-! ## 1. Digits, letters and names -/

/-- What holds of each member of a list can be checked one member after another. -/
theorem forall_mem_of_all {α : Type} {P : α → Prop} [DecidablePred P] {l : List α}
    (h : l.all (fun a => decide (P a)) = true) : ∀ a ∈ l, P a := by
  intro a ha
  exact of_decide_eq_true (List.all_eq_true.1 h a ha)

/-- Digits may stand in names. -/
theorem isIdentChar_of_isDigit {c : Char} (h : c.isDigit = true) : isIdentChar c = true := by
  simp [isIdentChar, Char.isAlphanum, h]

/-- Digits by their code points. -/
theorem isDigit_iff {c : Char} : c.isDigit = true ↔ 48 ≤ c.toNat ∧ c.toNat ≤ 57 := by
  change (decide (c.val ≥ 48) && decide (c.val ≤ 57)) = true ↔ _
  simp only [Bool.and_eq_true, decide_eq_true_eq, ge_iff_le, UInt32.le_iff_toNat_le]
  exact Iff.rfl

theorem isAlpha_iff {c : Char} :
    c.isAlpha = true ↔ (65 ≤ c.toNat ∧ c.toNat ≤ 90) ∨ (97 ≤ c.toNat ∧ c.toNat ≤ 122) := by
  change (decide (c.val ≥ 65 ∧ c.val ≤ 90) || (decide (c.val ≥ 97) && decide (c.val ≤ 122))) =
    true ↔ _
  simp only [Bool.or_eq_true, Bool.and_eq_true, decide_eq_true_eq, ge_iff_le,
    UInt32.le_iff_toNat_le]
  exact Iff.rfl

/-- No digit is a letter. -/
theorem isAlpha_of_isDigit {c : Char} (h : c.isDigit = true) : c.isAlpha = false := by
  rw [Bool.eq_false_iff]
  intro ha
  rw [isDigit_iff] at h
  rw [isAlpha_iff] at ha
  omega

/-- A name is made of characters of names throughout. -/
theorem isIdentChar_of_mem {n : List Char} (h : isIdentifier n = true) {c : Char} (hc : c ∈ n) :
    isIdentChar c = true :=
  List.all_eq_true.1 (all_isIdentChar_of_isIdentifier h) c hc

theorem ne_nil_of_isIdentifier {n : List Char} (h : isIdentifier n = true) : n ≠ [] := by
  rintro rfl
  exact absurd h (by decide)

/-- A name has a first character, and that one may begin a name. -/
theorem exists_cons_of_isIdentifier {n : List Char} (h : isIdentifier n = true) :
    ∃ c more, n = c :: more ∧ isIdentStart c = true := by
  obtain ⟨c, more, rfl⟩ := List.exists_cons_of_ne_nil (ne_nil_of_isIdentifier h)
  simp only [isIdentifier, Bool.and_eq_true] at h
  exact ⟨c, more, rfl, h.1⟩

/-- What may begin a name is no digit, so a reader knows at the first character whether it reads a
name or a number. -/
theorem isDigit_of_isIdentStart {c : Char} (h : isIdentStart c = true) : c.isDigit = false := by
  rw [Bool.eq_false_iff]
  intro hd
  simp only [isIdentStart, Bool.or_eq_true, beq_iff_eq] at h
  rcases h with h | rfl
  · simp [isAlpha_of_isDigit hd] at h
  · exact absurd hd (by decide)

theorem startsWithDigit_of_isIdentifier {n : List Char} (h : isIdentifier n = true) :
    startsWithDigit n = false := by
  obtain ⟨c, more, rfl, hc⟩ := exists_cons_of_isIdentifier h
  exact isDigit_of_isIdentStart hc

/-! ## 2. The end of a word -/

/-- What does not go on with a character of a name. -/
def WordEnd (rest : List Char) : Prop := ∀ c ∈ rest.head?, isIdentChar c = false

/-- The end of the text ends a word. -/
theorem wordEnd_nil : WordEnd [] := by simp [WordEnd]

theorem wordEnd_cons {c : Char} (h : isIdentChar c = false) (rest : List Char) :
    WordEnd (c :: rest) := by simp [WordEnd, h]

/-- A run of characters of one kind ends where the next one is of another. -/
theorem takeWhile_append_of_head {p : Char → Bool} {cs rest : List Char}
    (hcs : ∀ c ∈ cs, p c = true) (hrest : ∀ c ∈ rest.head?, p c = false) :
    (cs ++ rest).takeWhile p = cs ∧ (cs ++ rest).dropWhile p = rest := by
  have hr : rest.takeWhile p = [] ∧ rest.dropWhile p = rest := by
    cases rest with
    | nil => exact ⟨rfl, rfl⟩
    | cons c rest => simp [hrest c (by simp)]
  rw [List.takeWhile_append_of_pos hcs, List.dropWhile_append_of_pos hcs, hr.1, hr.2]
  exact ⟨List.append_nil cs, rfl⟩

/-- **A word is found as it is**, if what follows does not go on with it. -/
theorem takeWhile_append_of_wordEnd {cs rest : List Char} (hcs : ∀ c ∈ cs, isIdentChar c = true)
    (hrest : WordEnd rest) :
    (cs ++ rest).takeWhile isIdentChar = cs ∧ (cs ++ rest).dropWhile isIdentChar = rest :=
  takeWhile_append_of_head hcs hrest

end TemplateCompiler.Text
