import TemplateCompiler.Text.Blank

/-! # Trimmed texts

A text is *tight* when it has a character and neither its first nor its last one is blank.
Trimming finds a tight text between any blanks (`Tight.trim`), which is what proofs about printed
templates need: there the tight text is known, and the blanks around it are the printer's.

Proofs about texts that were read go the other way.  Every text is its trimmed part between blanks
(`exists_eq_trim`), and the trimmed part is tight or empty (`tight_trim`); so it is a piece of the
text as it stands (`isInfix_trim`), and trimming it once more changes nothing (`trim_trim`).

The end of a text is trimmed as the start of the text read backwards.  The lemmas about the end are
therefore those about the start, for the reversed text.
-/

namespace TemplateCompiler.Text

/-- A text that starts and ends with characters that are not blank. -/
structure Tight (cs : List Char) : Prop where
  head : ∃ c rest, cs = c :: rest ∧ isBlank c = false
  last : ∃ init c, cs = init ++ [c] ∧ isBlank c = false

theorem Tight.ne_nil {cs : List Char} (h : Tight cs) : cs ≠ [] := by
  obtain ⟨c, rest, rfl, -⟩ := h.head
  exact List.cons_ne_nil _ _

theorem Tight.isEmpty {cs : List Char} (h : Tight cs) : cs.isEmpty = false := by
  simpa using h.ne_nil

/-- A text with a character that is not blank is no blank text. -/
theorem Tight.isBlankText {cs : List Char} (h : Tight cs) : isBlankText cs = false := by
  obtain ⟨c, rest, rfl, hc⟩ := h.head
  simp [Text.isBlankText, hc]

/-- A tight start and a tight end make a tight text, whatever stands between. -/
theorem Tight.append {as cs : List Char} (bs : List Char) (ha : Tight as) (hc : Tight cs) :
    Tight (as ++ (bs ++ cs)) := by
  obtain ⟨c, rest, rfl, hb⟩ := ha.head
  obtain ⟨init, d, rfl, hd⟩ := hc.last
  exact ⟨⟨c, rest ++ (bs ++ (init ++ [d])), by simp, hb⟩,
    ⟨c :: rest ++ (bs ++ init), d, by simp, hd⟩⟩

/-- Blanks in front are taken off. -/
theorem trimStart_append_of_blank {bs : List Char} (cs : List Char)
    (h : ∀ c ∈ bs, isBlank c = true) : trimStart (bs ++ cs) = trimStart cs := by
  rw [trimStart, List.dropWhile_append_of_pos h, trimStart]

/-- Nothing is taken off in front of a character that is not blank. -/
theorem trimStart_cons_of_not_blank {c : Char} (cs : List Char) (h : isBlank c = false) :
    trimStart (c :: cs) = c :: cs := by
  simp [trimStart, h]

theorem trimStart_cons_of_blank {c : Char} (cs : List Char) (h : isBlank c = true) :
    trimStart (c :: cs) = trimStart cs := by
  simp [trimStart, h]

/-- Blanks at the end are taken off as those in front are. -/
theorem trimEnd_append_of_blank {bs : List Char} (cs : List Char)
    (h : ∀ c ∈ bs, isBlank c = true) : trimEnd (cs ++ bs) = trimEnd cs := by
  have hr : ∀ c ∈ bs.reverse, isBlank c = true := fun c hc => h c (List.mem_reverse.1 hc)
  rw [trimEnd, List.reverse_append, List.dropWhile_append_of_pos hr, trimEnd]

theorem trimEnd_concat_of_not_blank {c : Char} (cs : List Char) (h : isBlank c = false) :
    trimEnd (cs ++ [c]) = cs ++ [c] := by
  simp [trimEnd, h]

/-- A tight text is kept, with all that follows it. -/
theorem Tight.trimStart {cs : List Char} (h : Tight cs) (rest : List Char) :
    trimStart (cs ++ rest) = cs ++ rest := by
  obtain ⟨c, more, rfl, hc⟩ := h.head
  exact trimStart_cons_of_not_blank _ hc

/-- A tight text is kept at the end, with all that stands before it. -/
theorem Tight.trimEnd {cs : List Char} (h : Tight cs) (pre : List Char) :
    trimEnd (pre ++ cs) = pre ++ cs := by
  obtain ⟨init, c, rfl, hc⟩ := h.last
  rw [← List.append_assoc]
  exact trimEnd_concat_of_not_blank _ hc

/-- **Trimming takes the blanks around a tight text, and no more.** -/
theorem Tight.trim {cs pre post : List Char} (h : Tight cs) (hpre : ∀ c ∈ pre, isBlank c = true)
    (hpost : ∀ c ∈ post, isBlank c = true) : trim (pre ++ (cs ++ post)) = cs := by
  rw [Text.trim, trimStart_append_of_blank _ hpre, h.trimStart, trimEnd_append_of_blank _ hpost]
  simpa using h.trimEnd []

/-- There is nothing to take off a tight text. -/
theorem Tight.trim_self {cs : List Char} (h : Tight cs) : Text.trim cs = cs := by
  have hblank : ∀ c ∈ ([] : List Char), isBlank c = true := by simp
  simpa using h.trim hblank hblank

theorem isBlank_space : isBlank ' ' = true := by decide

theorem isBlank_of_mem_space : ∀ c ∈ [' '], isBlank c = true := by
  intro c hc
  obtain rfl : c = ' ' := by simpa using hc
  decide

/-- The blank that a printer puts in front. -/
theorem Tight.trim_blank_cons {cs : List Char} (h : Tight cs) : Text.trim (' ' :: cs) = cs := by
  have hpost : ∀ c ∈ ([] : List Char), isBlank c = true := by simp
  simpa using h.trim isBlank_of_mem_space hpost

/-- The blank that a printer puts behind. -/
theorem Tight.trim_concat_blank {cs : List Char} (h : Tight cs) :
    Text.trim (cs ++ [' ']) = cs := by
  have hpre : ∀ c ∈ ([] : List Char), isBlank c = true := by simp
  simpa using h.trim hpre isBlank_of_mem_space

/-! ## What trimming takes off -/

/-- A text that does not begin with a blank is kept. -/
theorem trimStart_of_head? {cs : List Char} (h : cs.head?.any isBlank = false) :
    trimStart cs = cs := by
  cases cs with
  | nil => rfl
  | cons c rest => exact trimStart_cons_of_not_blank rest (by simpa using h)

/-- What is left begins with a character that is not blank, if there is one. -/
theorem head?_trimStart (cs : List Char) : (trimStart cs).head?.any isBlank = false := by
  cases h : (trimStart cs).head? with
  | none => rfl
  | some c => exact head_trimStart h

/-- Whether a text is blank is told as well without the blanks in front. -/
theorem isBlankText_trimStart (cs : List Char) : isBlankText (trimStart cs) = isBlankText cs := by
  conv => rhs; rw [← trimStart_append_dropped cs]
  rw [isBlankText, isBlankText, List.all_append, List.all_takeWhile, Bool.true_and]

/-- At the end a text loses nothing but blanks. -/
theorem exists_eq_trimEnd (cs : List Char) :
    ∃ post, (∀ c ∈ post, isBlank c = true) ∧ cs = trimEnd cs ++ post := by
  refine ⟨(cs.reverse.takeWhile isBlank).reverse, ?_, ?_⟩
  · intro c hc
    exact List.all_eq_true.1 List.all_takeWhile c (List.mem_reverse.1 hc)
  · rw [trimEnd, ← List.reverse_append, List.takeWhile_append_dropWhile, List.reverse_reverse]

/-- A text that does not end with a blank is kept. -/
theorem trimEnd_of_getLast? {cs : List Char} (h : cs.getLast?.any isBlank = false) :
    trimEnd cs = cs := by
  rcases List.eq_nil_or_concat cs with rfl | ⟨init, c, rfl⟩
  · rfl
  · rw [List.concat_eq_append] at h ⊢
    exact trimEnd_concat_of_not_blank init (by simpa using h)

/-- What is left ends with a character that is not blank, if there is one. -/
theorem getLast?_trimEnd (cs : List Char) : (trimEnd cs).getLast?.any isBlank = false := by
  rw [trimEnd, List.getLast?_reverse]
  exact head?_trimStart cs.reverse

theorem isSuffix_trimStart (cs : List Char) : trimStart cs <:+ cs :=
  List.dropWhile_suffix _

theorem isPrefix_trimEnd (cs : List Char) : trimEnd cs <+: cs := by
  obtain ⟨post, -, hcs⟩ := exists_eq_trimEnd cs
  exact ⟨post, hcs.symm⟩

/-- Trimming keeps a piece of the text as it stands. -/
theorem isInfix_trim (cs : List Char) : trim cs <:+: cs :=
  (isPrefix_trimEnd _).isInfix.trans (isSuffix_trimStart cs).isInfix

/-- A text is its trimmed part between blanks. -/
theorem exists_eq_trim (cs : List Char) :
    ∃ pre post, (∀ c ∈ pre, isBlank c = true) ∧ (∀ c ∈ post, isBlank c = true) ∧
      cs = pre ++ (trim cs ++ post) := by
  obtain ⟨post, hpost, htrim⟩ := exists_eq_trimEnd (trimStart cs)
  refine ⟨cs.takeWhile isBlank, post, ?_, hpost, ?_⟩
  · exact fun c hc => List.all_eq_true.1 List.all_takeWhile c hc
  · rw [trim, ← htrim, trimStart_append_dropped]

/-- A trimmed text with a character in it is tight. -/
theorem tight_trim {cs : List Char} (h : trim cs ≠ []) : Tight (trim cs) := by
  constructor
  · -- the first character is that of the text without its blanks at the start
    obtain ⟨c, rest, hc⟩ := List.exists_cons_of_ne_nil h
    obtain ⟨post, -, hpost⟩ := exists_eq_trimEnd (trimStart cs)
    have hhead : (trimStart cs).head? = some c := by
      rw [hpost, show trimEnd (trimStart cs) = c :: rest from hc]
      rfl
    exact ⟨c, rest, hc, head_trimStart hhead⟩
  · -- backwards, the last one is the first that is not blank
    have hback : trimStart (trimStart cs).reverse = (trim cs).reverse :=
      (List.reverse_reverse _).symm
    obtain ⟨init, c, hc⟩ := (List.eq_nil_or_concat (trim cs)).resolve_left h
    rw [List.concat_eq_append] at hc
    have hhead : (trimStart (trimStart cs).reverse).head? = some c := by
      rw [hback, hc]
      simp
    exact ⟨init, c, hc, head_trimStart hhead⟩

/-- Trimming twice takes off no more than trimming once. -/
theorem trim_trim (cs : List Char) : trim (trim cs) = trim cs := by
  by_cases h : trim cs = []
  · rw [h]
    rfl
  · exact (tight_trim h).trim_self

end TemplateCompiler.Text
