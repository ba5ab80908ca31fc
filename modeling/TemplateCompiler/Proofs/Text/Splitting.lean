import TemplateCompiler.Proofs.Text.Outline

/-! # Splitting at a word is exact

The parts of a text between the top-level occurrences of a word are read as texts of their own. This
is right only if nothing is lost at the cuts, if all occurrences are cut at and no new ones come up
in a part, and if a part by itself shows what it showed in the whole text.  Main statement: all of
this holds for every text, also for one with stray brackets or an open literal (`splitWord_exact`).

An occurrence is counted in the outline, by looking at the characters around its place
(`occurrences`).  The cut is found by a scan that carries one bit instead, whether a blank stands
just before.  `Scan.wordCount` counts with this bit and is equal to the number of occurrences
(`length_filter_items`).  What the cut needs is that the scan is back in its first state there
(`Scan.after_of_cutWord`).
-/

namespace TemplateCompiler.Text

/-! ## 1. Occurrences -/

/-- A word that a text can be cut at: at least one character, none of them a blank, a quotation mark
or a bracket.  Outside of literals a backslash is a character like any other. -/
def IsSeparator (w : List Char) : Prop := w ≠ [] ∧ ∀ c ∈ w, isPlain c = true ∧ isBlank c = false

instance (w : List Char) : Decidable (IsSeparator w) :=
  decidable_of_decidable_of_iff
    (p := w.isEmpty = false ∧ (w.all fun c => isPlain c && !isBlank c) = true)
    (by simp [IsSeparator])

/-- Whether `w` stands at a place of a text, with a blank on either side. -/
def standsAt (w cs : List Char) (place : Nat) : Bool :=
  (cs.take place).getLast?.any isBlank && startsWithWord w (cs.drop place)

/-- The top-level occurrences of a word with a blank on either side, each with its place and its
first character. -/
def occurrences (w cs : List Char) : List (Nat × Char) :=
  (outline cs).filter fun item => standsAt w cs item.1

/-- The number of shown occurrences of a word.  `afterBlank` says whether a blank stands just
before. -/
def Scan.wordCount (w : List Char) (s : Scan) (afterBlank : Bool) : List Char → Nat
  | [] => 0
  | c :: rest =>
    (if afterBlank && s.shows c && startsWithWord w (c :: rest) then 1 else 0) +
      (s.next c).wordCount w (isBlank c) rest

theorem standsAt_length (w pre cs : List Char) :
    standsAt w (pre ++ cs) pre.length = (pre.getLast?.any isBlank && startsWithWord w cs) := by
  rw [standsAt, List.take_left, List.drop_left]

/-- Occurrences are counted by a scan. -/
theorem length_filter_items (w : List Char) (s : Scan) (pre cs : List Char) :
    ((s.items pre.length cs).filter fun item => standsAt w (pre ++ cs) item.1).length =
      s.wordCount w (pre.getLast?.any isBlank) cs := by
  induction cs generalizing s pre with
  | nil => rfl
  | cons c cs ih =>
    have hmore := ih (s.next c) (pre ++ [c])
    rw [List.append_assoc, List.singleton_append, List.length_append, List.length_singleton,
      List.getLast?_concat] at hmore
    rw [Scan.items_cons, List.filter_append, List.length_append, hmore, Scan.wordCount]
    have hfirst : ((if s.shows c then [(pre.length, c)] else []).filter
        fun item => standsAt w (pre ++ c :: cs) item.1).length =
          if pre.getLast?.any isBlank && s.shows c && startsWithWord w (c :: cs) then 1 else 0 := by
      by_cases hshows : s.shows c = true
      · rw [if_pos hshows, List.filter_cons, List.filter_nil, standsAt_length, hshows, Bool.and_true]
        split <;> rfl
      · simp [hshows]
    rw [hfirst]
    rfl

theorem length_occurrences (w cs : List Char) :
    (occurrences w cs).length = Scan.start.wordCount w false cs :=
  length_filter_items w Scan.start [] cs

/-! ## 2. The scan at a cut -/

section
variable {w cs before after : List Char} {s : Scan} {afterBlank : Bool}

theorem Scan.wordCount_of_cutWord_eq_none (h : s.cutWord w afterBlank cs = none) :
    s.wordCount w afterBlank cs = 0 := by
  induction cs generalizing s afterBlank with
  | nil => rfl
  | cons c cs ih =>
    rw [cutWord_cons] at h
    rw [wordCount]
    split at h
    · cases h
    · rename_i hstop
      rw [if_neg hstop, ih (Option.map_eq_none_iff.1 h)]

/-- A plain character is shown at top level only. -/
theorem Scan.eq_within_of_shows_plain {c : Char} (h : s.shows c = true) (hc : isPlain c = true) :
    s = Scan.within 0 := by
  obtain ⟨-, -, hclosing⟩ := isPlain_iff.1 hc
  simp only [shows, hclosing, Bool.and_eq_true, decide_eq_true_eq, beq_iff_eq, Bool.false_eq_true,
    if_false] at h
  rw [within, ← h.1.1, ← h.2]

/-- Inside of a word no other one starts. -/
theorem Scan.wordCount_append (w : List Char) {v : List Char}
    (hv : ∀ c ∈ v, isPlain c = true ∧ isBlank c = false) (rest : List Char) :
    (Scan.within 0).wordCount w false (v ++ rest) = (Scan.within 0).wordCount w false rest := by
  induction v with
  | nil => rfl
  | cons c v ih =>
    obtain ⟨hplain, hblank⟩ := hv c (by simp)
    rw [List.cons_append, wordCount, next_within_of_isPlain hplain, hblank,
      ih fun d hd => hv d (by simp [hd])]
    simp

/-- **The scan is at top level where a text is cut**, and from there on it counts the occurrences in
the rest. -/
theorem Scan.after_of_cutWord (hw : IsSeparator w)
    (h : s.cutWord w afterBlank cs = some (before, after)) :
    s.after before = Scan.within 0 ∧
      s.wordCount w afterBlank cs = (Scan.within 0).wordCount w false after + 1 := by
  induction cs generalizing s afterBlank before with
  | nil => cases h
  | cons c cs ih =>
    rw [cutWord_cons] at h
    rw [wordCount]
    split at h
    · rename_i hstop
      rw [if_pos hstop]
      simp only [Bool.and_eq_true, startsWithWord, List.isPrefixOf_iff_prefix] at hstop
      obtain ⟨⟨-, hshows⟩, ⟨rest, hrest⟩, -⟩ := hstop
      cases h
      rw [← hrest, List.drop_left]
      obtain ⟨x, v, rfl⟩ := List.exists_cons_of_ne_nil hw.1
      rw [List.cons_append] at hrest
      obtain ⟨rfl, rfl⟩ := List.cons.inj hrest
      obtain ⟨hplain, hblank⟩ := hw.2 x (by simp)
      obtain rfl := eq_within_of_shows_plain hshows hplain
      rw [next_within_of_isPlain hplain, hblank,
        wordCount_append _ fun d hd => hw.2 d (List.mem_cons_of_mem _ hd), Nat.add_comm]
      exact ⟨rfl, rfl⟩
    · rename_i hstop
      obtain ⟨⟨x, y⟩, hx, he⟩ := Option.map_eq_some_iff.1 h
      cases he
      obtain ⟨hafter, hcount⟩ := ih hx
      rw [if_neg hstop, hcount, Nat.zero_add]
      exact ⟨hafter, rfl⟩

theorem startsWithWord_append (rest : List Char) (h : startsWithWord w cs = true) :
    startsWithWord w (cs ++ rest) = true := by
  simp only [startsWithWord, Bool.and_eq_true, List.isPrefixOf_iff_prefix] at h ⊢
  obtain ⟨⟨tail, rfl⟩, hblank⟩ := h
  rw [List.drop_left] at hblank
  refine ⟨⟨tail ++ rest, (List.append_assoc ..).symm⟩, ?_⟩
  rw [List.append_assoc, List.drop_left]
  cases tail with
  | nil => cases hblank
  | cons c tail => exact hblank

/-- The part before a cut has nothing to cut at. -/
theorem Scan.cutWord_before (h : s.cutWord w afterBlank cs = some (before, after)) :
    s.cutWord w afterBlank before = none := by
  have hcs := eq_of_cutWord h
  subst hcs
  induction before generalizing s afterBlank with
  | nil => rfl
  | cons c before ih =>
    rw [List.append_assoc, List.cons_append, cutWord_cons] at h
    rw [cutWord_cons]
    split at h
    · cases h
    · rename_i hstop
      obtain ⟨⟨x, y⟩, hx, he⟩ := Option.map_eq_some_iff.1 h
      obtain ⟨hbefore, hafter⟩ := Prod.mk.inj he
      obtain rfl : before = x := (List.cons.inj hbefore).2.symm
      obtain rfl : after = y := hafter.symm
      rw [← List.append_assoc] at hx
      rw [if_neg, ih hx]
      · rfl
      · intro hstop'
        simp only [Bool.and_eq_true] at hstop'
        have hstarts := startsWithWord_append (w ++ after) hstop'.2
        rw [List.cons_append] at hstarts
        exact hstop (by simp [hstop'.1, hstarts])

end

/-! ## 3. The parts -/

theorem splitWord_ne_nil (w cs : List Char) : splitWord w cs ≠ [] := by
  rw [splitWord_eq]
  split <;> exact List.cons_ne_nil _ _

theorem intercalate_cons {w part : List Char} {parts : List (List Char)} (h : parts ≠ []) :
    w.intercalate (part :: parts) = part ++ w ++ w.intercalate parts := by
  obtain ⟨next, parts, rfl⟩ := List.exists_cons_of_ne_nil h
  simp [List.intercalate]

/-- Nothing is lost. -/
theorem intercalate_splitWord (w cs : List Char) : w.intercalate (splitWord w cs) = cs := by
  fun_induction splitWord w cs with
  | case1 cs hcut => simp [List.intercalate]
  | case2 cs before after hcut ih =>
    rw [intercalate_cons (splitWord_ne_nil w after), ih]
    exact (Scan.eq_of_cutWord hcut).symm

/-- Every occurrence is cut at. -/
theorem length_splitWord {w : List Char} (hw : IsSeparator w) (cs : List Char) :
    (splitWord w cs).length = Scan.start.wordCount w false cs + 1 := by
  fun_induction splitWord w cs with
  | case1 cs hcut => rw [Scan.wordCount_of_cutWord_eq_none hcut]; rfl
  | case2 cs before after hcut ih =>
    obtain ⟨-, hcount⟩ := Scan.after_of_cutWord hw hcut
    rw [List.length_cons, ih, hcount]
    rfl

theorem cutWord_of_mem_splitWord {w cs part : List Char} (h : part ∈ splitWord w cs) :
    cutWord w part = none := by
  fun_induction splitWord w cs with
  | case1 cs hcut =>
    obtain rfl := List.mem_singleton.1 h
    exact hcut
  | case2 cs before after hcut ih =>
    rcases List.mem_cons.1 h with rfl | h
    · exact Scan.cutWord_before hcut
    · exact ih h

/-- No occurrence comes up in a part. -/
theorem occurrences_of_mem_splitWord {w cs part : List Char} (h : part ∈ splitWord w cs) :
    occurrences w part = [] := by
  rw [← List.length_eq_zero_iff, length_occurrences]
  exact Scan.wordCount_of_cutWord_eq_none (cutWord_of_mem_splitWord h)

/-- **Before a part the scan is in its first state.** -/
theorem start_of_splitWord {w : List Char} (hw : IsSeparator w) {cs part : List Char}
    {before after : List (List Char)} (h : splitWord w cs = before ++ part :: after) :
    Scan.start.after (before.flatMap (· ++ w)) = Scan.start ∧
      ∃ post, cs = before.flatMap (· ++ w) ++ (part ++ post) := by
  fun_induction splitWord w cs generalizing before with
  | case1 cs hcut =>
    cases before with
    | nil =>
      obtain ⟨rfl, -⟩ := List.cons.inj h
      exact ⟨rfl, [], by simp⟩
    | cons first before => simp at h
  | case2 cs first rest hcut ih =>
    have hcs := Scan.eq_of_cutWord hcut
    cases before with
    | nil =>
      obtain ⟨rfl, -⟩ := List.cons.inj h
      exact ⟨rfl, w ++ rest, by simp [hcs]⟩
    | cons part' before =>
      obtain ⟨rfl, hrest⟩ := List.cons.inj h
      obtain ⟨hstart, post, hpost⟩ := ih hrest
      obtain ⟨hfirst, -⟩ := Scan.after_of_cutWord hw hcut
      have hword : (Scan.within 0).after w = Scan.within 0 :=
        Scan.after_within_of_isPlain (fun c hc => (hw.2 c hc).1) 0
      rw [List.flatMap_cons]
      refine ⟨?_, post, by rw [hcs, hpost]; simp⟩
      rw [Scan.after_append, Scan.after_append, hfirst, hword]
      exact hstart

/-! ## 4. The outline of a part -/

theorem offsetOf_lt_iff (as bs : List Char) (k : Nat) :
    offsetOf (as ++ bs) k < byteLength as ↔ k < as.length := by
  induction as generalizing k with
  | nil => simp
  | cons c as ih =>
    have hsize := c.utf8Size_pos
    cases k with
    | zero => simp [offsetOf]; omega
    | succ k =>
      have hk := ih k
      simp only [offsetOf, List.cons_append, List.take_succ_cons, byteLength_cons,
        List.length_cons] at hk ⊢
      omega

theorem offsetOf_append_of_le {as : List Char} {k : Nat} (h : k ≤ as.length) (bs : List Char) :
    offsetOf (as ++ bs) k = offsetOf as k := by
  rw [offsetOf, List.take_append_of_le_length h, offsetOf]

/-- **A part that starts at top level shows what it shows by itself.** -/
theorem outlineOffsets_middle {pre : List Char} (h : Scan.start.after pre = Scan.start)
    (part post : List Char) :
    (outlineOffsets (pre ++ (part ++ post))).filter (fun item =>
        byteLength pre ≤ item.1 ∧ item.1 < byteLength pre + byteLength part) =
      (outlineOffsets part).map fun item => (byteLength pre + item.1, item.2) := by
  -- among the places of the whole text, those of the part are told by their offsets
  have hwithin (k : Nat) : (byteLength pre ≤ offsetOf (pre ++ (part ++ post)) k ∧
      offsetOf (pre ++ (part ++ post)) k < byteLength pre + byteLength part) ↔
        pre.length ≤ k ∧ k < pre.length + part.length := by
    have hfirst := offsetOf_lt_iff pre (part ++ post) k
    have hlast := offsetOf_lt_iff (pre ++ part) post k
    rw [List.append_assoc, byteLength_append, List.length_append] at hlast
    omega
  have hplaces : (outline (pre ++ (part ++ post))).filter (fun item =>
      pre.length ≤ item.1 ∧ item.1 < pre.length + part.length) =
        Scan.start.items pre.length part := by
    rw [outline, Scan.items_append, Scan.items_append, h, Nat.zero_add, List.filter_append,
      List.filter_append]
    have hbefore : (Scan.start.items 0 pre).filter (fun item =>
        pre.length ≤ item.1 ∧ item.1 < pre.length + part.length) = [] := by
      refine List.filter_eq_nil_iff.2 fun item hitem => ?_
      have := Scan.lt_of_mem_items hitem
      simp only [decide_eq_true_eq]
      omega
    have hpart : (Scan.start.items pre.length part).filter (fun item =>
        pre.length ≤ item.1 ∧ item.1 < pre.length + part.length) =
          Scan.start.items pre.length part := by
      refine List.filter_eq_self.2 fun item hitem => ?_
      simpa using Scan.lt_of_mem_items hitem
    have hafter : ((Scan.start.after part).items (pre.length + part.length) post).filter
        (fun item => pre.length ≤ item.1 ∧ item.1 < pre.length + part.length) = [] := by
      refine List.filter_eq_nil_iff.2 fun item hitem => ?_
      have := Scan.lt_of_mem_items hitem
      simp only [decide_eq_true_eq]
      omega
    rw [hbefore, hpart, hafter, List.nil_append, List.append_nil]
  have hshift := Scan.items_add Scan.start pre.length 0 part
  rw [Nat.add_zero] at hshift
  rw [outlineOffsets, List.filter_map, outlineOffsets, List.map_map]
  simp only [Function.comp_def, hwithin]
  rw [hplaces, hshift, List.map_map]
  refine List.map_congr_left fun item hitem => ?_
  have hle := (Scan.lt_of_mem_items hitem).2
  rw [Function.comp_apply, offsetOf_append, offsetOf_append_of_le (by omega)]

/-- **Splitting at a word is exact.**  The parts and the word between each two give back the text.
There is one part more than there are occurrences, and none is in a part.  A part by itself shows
what the text shows within it, at offsets counted from where the part starts. -/
theorem splitWord_exact {w : List Char} (hw : IsSeparator w) (cs : List Char) :
    w.intercalate (splitWord w cs) = cs ∧
      (splitWord w cs).length = (occurrences w cs).length + 1 ∧
      (∀ part ∈ splitWord w cs, occurrences w part = []) ∧
      ∀ before part after, splitWord w cs = before ++ part :: after →
        let start := byteLength (before.flatMap (· ++ w))
        (outlineOffsets cs).filter (fun item =>
            start ≤ item.1 ∧ item.1 < start + byteLength part) =
          (outlineOffsets part).map fun item => (start + item.1, item.2) := by
  refine ⟨intercalate_splitWord w cs, ?_, fun part hpart => occurrences_of_mem_splitWord hpart, ?_⟩
  · rw [length_occurrences, length_splitWord hw]
  · intro before part after hsplit
    obtain ⟨hstart, post, rfl⟩ := start_of_splitWord hw hsplit
    exact outlineOffsets_middle hstart part post

/-- The theorem at a text with a stray bracket before the first occurrence, two occurrences with one
blank between them, one in a literal and one in brackets. -/
theorem splitWord_exact_stray :
    IsSeparator "or".toList ∧
      splitWord "or".toList "é) or or ' or ' [a or b".toList =
        ["é) ".toList, " ".toList, " ' or ' [a or b".toList] ∧
      (occurrences "or".toList "é) or or ' or ' [a or b".toList).length = 2 ∧
      (outlineOffsets "é) or or ' or ' [a or b".toList).filter (fun item =>
          9 ≤ item.1 ∧ item.1 < 9 + 15) = [(9, ' '), (16, ' '), (17, '[')] := by
  have hw : IsSeparator "or".toList := by decide
  have hsplit : splitWord "or".toList "é) or or ' or ' [a or b".toList =
      ["é) ".toList, " ".toList, " ' or ' [a or b".toList] := by
    decide +kernel
  obtain ⟨-, hlength, -, houtline⟩ := splitWord_exact hw "é) or or ' or ' [a or b".toList
  rw [hsplit] at hlength houtline
  have hlast := houtline ["é) ".toList, " ".toList] " ' or ' [a or b".toList [] rfl
  exact ⟨hw, hsplit, by simpa using hlength.symm, hlast⟩

end TemplateCompiler.Text
