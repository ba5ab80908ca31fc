import TemplateCompiler.Proofs.Text.Balanced

/-! # The spacing of a text

How many blanks stand between two pieces of a text, and which, is its spacing.  `squeeze` forgets
it: every run of blanks outside of literals becomes one space.  Two texts with one squeezed form
differ in their spacing only.

The functions on texts do not see it.  Trimming, taking a word off the start and cutting commute
with `squeeze`.  For the three scanners, which keep a state, this is one statement (`Cuts.squeeze`):
a scanner that never stops at a blank and forgets how many it has seen finds the same place in both
texts.
-/

namespace TemplateCompiler.Text

/-! ## 1. One space for every run of blanks -/

/-- From a point of a text on, one space for every run of blanks outside of literals. -/
def Literal.squeeze (l : Literal) : List Char → List Char
  | [] => []
  | c :: rest =>
    if l = .outside ∧ isBlank c = true then
      if rest.head?.any isBlank then Literal.outside.squeeze rest
      else ' ' :: Literal.outside.squeeze rest
    else c :: (l.next c).squeeze rest

/-- A text with one space for every run of blanks outside of literals. -/
def squeeze (cs : List Char) : List Char := Literal.outside.squeeze cs

@[simp] theorem Literal.squeeze_nil (l : Literal) : l.squeeze [] = [] := rfl

@[simp] theorem squeeze_nil : squeeze [] = [] := rfl

/-- Characters that are not blank are kept, and blanks in literals. -/
theorem Literal.squeeze_kept {l : Literal} {c : Char} (h : l = .outside → isBlank c = false)
    (rest : List Char) : l.squeeze (c :: rest) = c :: (l.next c).squeeze rest := by
  rw [Literal.squeeze, if_neg]
  rintro ⟨hl, hc⟩
  simp [h hl] at hc

/-- Of a run of blanks one space is left. -/
theorem squeeze_blank {c : Char} (h : isBlank c = true) (rest : List Char) :
    squeeze (c :: rest) = ' ' :: squeeze (trimStart rest) := by
  induction rest generalizing c with
  | nil => simp [squeeze, Literal.squeeze, h, trimStart]
  | cons d rest ih =>
    by_cases hd : isBlank d = true
    · rw [trimStart_cons_of_blank rest hd, ← ih hd]
      simp [squeeze, Literal.squeeze, h, hd]
    · rw [Bool.not_eq_true] at hd
      rw [trimStart_cons_of_not_blank rest hd]
      simp [squeeze, Literal.squeeze, h, hd]

/-- A character that can be seen outside of literals and starts none. -/
def isSolid (c : Char) : Bool := !isBlank c && !isQuote c

theorem isSolid_iff {c : Char} : isSolid c = true ↔ isBlank c = false ∧ isQuote c = false := by
  simp [isSolid]

theorem isSolid_of_isIdentChar {c : Char} (h : isIdentChar c = true) : isSolid c = true :=
  isSolid_iff.2 ⟨isBlank_of_isIdentChar h, (isPlain_iff.1 (isPlain_of_isIdentChar h)).1⟩

theorem squeeze_solid {c : Char} (h : isSolid c = true) (rest : List Char) :
    squeeze (c :: rest) = c :: squeeze rest := by
  obtain ⟨hblank, hquote⟩ := isSolid_iff.1 h
  rw [squeeze, Literal.squeeze_kept fun _ => hblank]
  simp [Literal.next, hquote, squeeze]

/-- The first character of both texts: a solid one, or none that is solid. -/
theorem squeeze_cons (c : Char) (rest : List Char) :
    (isSolid c = true ∧ squeeze (c :: rest) = c :: squeeze rest) ∨
      isSolid c = false ∧ ∃ d more, isSolid d = false ∧ squeeze (c :: rest) = d :: more := by
  by_cases hc : isSolid c = true
  · exact .inl ⟨hc, squeeze_solid hc rest⟩
  · rw [Bool.not_eq_true] at hc
    refine .inr ⟨hc, ?_⟩
    by_cases hblank : isBlank c = true
    · exact ⟨' ', _, by decide, squeeze_blank hblank rest⟩
    · rw [Bool.not_eq_true] at hblank
      exact ⟨c, _, hc, Literal.squeeze_kept (fun _ => hblank) rest⟩

theorem ne_of_not_solid {c : Char} (mark : Char) (hc : isSolid c = false)
    (hmark : isSolid mark = true) : c ≠ mark := by
  rintro rfl
  simp [hc] at hmark

/-- A class of solid characters. -/
def SolidClass (p : Char → Bool) : Prop := ∀ c, p c = true → isSolid c = true

theorem SolidClass.eq_false {p : Char → Bool} (hp : SolidClass p) {c : Char}
    (hc : isSolid c = false) : p c = false := by
  rw [Bool.eq_false_iff]
  exact fun h => by simp [hp c h] at hc

/-- Induction over a text: a character that is kept, or a run of blanks at once. -/
theorem squeeze_induction {motive : Literal → List Char → Prop} (nil : ∀ l, motive l [])
    (kept : ∀ l c rest, (l = .outside → isBlank c = false) → motive (l.next c) rest →
      motive l (c :: rest))
    (blank : ∀ c rest, isBlank c = true → motive .outside (trimStart rest) →
      motive .outside (c :: rest))
    (l : Literal) (cs : List Char) : motive l cs := by
  induction hn : cs.length using Nat.strongRecOn generalizing l cs with
  | ind n ih =>
    subst hn
    cases cs with
    | nil => exact nil l
    | cons c rest =>
      by_cases h : l = .outside ∧ isBlank c = true
      · obtain ⟨rfl, hc⟩ := h
        have hlength : (trimStart rest).length ≤ rest.length := (List.dropWhile_sublist _).length_le
        exact blank c rest hc (ih _ (by simp only [List.length_cons]; omega) _ _ rfl)
      · refine kept l c rest (fun hl => ?_) (ih _ (by simp) _ _ rfl)
        simpa [hl] using h

theorem length_squeeze_le (l : Literal) (cs : List Char) : (l.squeeze cs).length ≤ cs.length := by
  fun_induction Literal.squeeze l cs <;> simp_all
  omega

/-! ## 2. The ends of a text -/

/-- The first character of a squeezed text. -/
theorem head?_squeeze (cs : List Char) :
    (squeeze cs).head? = cs.head?.map fun c => if isBlank c then ' ' else c := by
  cases cs with
  | nil => rfl
  | cons c rest =>
    by_cases hc : isBlank c = true
    · simp [squeeze_blank hc, hc]
    · rw [Bool.not_eq_true] at hc
      simp [squeeze, Literal.squeeze_kept fun _ => hc, hc]

/-- What does not tell blanks apart holds of the first character of both texts. -/
theorem any_head?_squeeze {p : Char → Bool} (hp : ∀ c, isBlank c = true → p ' ' = p c)
    (cs : List Char) : (squeeze cs).head?.any p = cs.head?.any p := by
  rw [head?_squeeze]
  cases h : cs.head? with
  | none => rfl
  | some c =>
    by_cases hc : isBlank c = true
    · simp [hc, hp c hc]
    · simp [hc]

theorem blank_head?_squeeze (cs : List Char) :
    (squeeze cs).head?.any isBlank = cs.head?.any isBlank :=
  any_head?_squeeze (fun _ hc => isBlank_space.trans hc.symm) cs

theorem isEmpty_squeeze (cs : List Char) : (squeeze cs).isEmpty = cs.isEmpty := by
  have h := head?_squeeze cs
  cases hcs : squeeze cs <;> cases cs <;> simp_all

theorem Literal.next_of_isBlank {c : Char} (h : isBlank c = true) :
    Literal.outside.next c = .outside := by
  simp [Literal.next, (isPlain_iff.1 (isPlain_of_isBlank h)).1]

/-- A squeezed text ends with a blank if the text does. -/
theorem getLast?_squeeze (l : Literal) (cs : List Char) :
    (l.squeeze cs).getLast?.map isBlank = cs.getLast?.map isBlank := by
  have hcons (c : Char) (cs : List Char) :
      (c :: cs).getLast?.map isBlank = some ((cs.getLast?.map isBlank).getD (isBlank c)) := by
    rw [List.getLast?_cons, Option.map_some, Option.getD_map]
  fun_induction Literal.squeeze l cs with
  | case1 => rfl
  | case2 l c rest h hrest ih =>
    -- another blank follows, so this one is not the last character
    obtain ⟨d, rest, rfl⟩ : ∃ d more, rest = d :: more :=
      List.exists_cons_of_ne_nil (by rintro rfl; simp at hrest)
    rw [ih, hcons c, hcons d]
    rfl
  | case3 l c rest h hrest ih =>
    rw [hcons, hcons, ih, h.2, isBlank_space]
  | case4 l c rest h ih => rw [hcons, hcons, ih]

theorem any_getLast?_squeeze (l : Literal) (cs : List Char) :
    (l.squeeze cs).getLast?.any isBlank = cs.getLast?.any isBlank := by
  have hany (o : Option Char) : o.any isBlank = (o.map isBlank).any id := by cases o <;> rfl
  rw [hany, hany, getLast?_squeeze]

theorem isBlankText_squeeze (l : Literal) (cs : List Char) :
    isBlankText (l.squeeze cs) = isBlankText cs := by
  have hcons (c : Char) (cs : List Char) : isBlankText (c :: cs) = (isBlank c && isBlankText cs) :=
    rfl
  induction l, cs using squeeze_induction with
  | nil => rfl
  | kept l c rest h ih => rw [Literal.squeeze_kept h, hcons, hcons, ih]
  | blank c rest h ih =>
    change isBlankText (squeeze (c :: rest)) = _
    rw [squeeze_blank h, hcons, hcons, h, isBlank_space, squeeze, ih, isBlankText_trimStart]

/-- A text is squeezed part by part if no run of blanks is cut. -/
theorem Literal.squeeze_append (l : Literal) {as bs : List Char}
    (h : as.getLast?.any isBlank = false ∨ bs.head?.any isBlank = false) :
    l.squeeze (as ++ bs) = l.squeeze as ++ (as.foldl Literal.next l).squeeze bs := by
  induction as generalizing l with
  | nil => rfl
  | cons c as ih =>
    have hrest : as.getLast?.any isBlank = false ∨ bs.head?.any isBlank = false := by
      cases as with
      | nil => exact .inl rfl
      | cons d as => simpa [List.getLast?_cons] using h
    by_cases hc : l = .outside ∧ isBlank c = true
    · obtain ⟨rfl, hc⟩ := hc
      have hstep (rest : List Char) : Literal.outside.squeeze (c :: rest) =
          if rest.head?.any isBlank then Literal.outside.squeeze rest
          else ' ' :: Literal.outside.squeeze rest := by
        simp [Literal.squeeze, hc]
      rw [List.cons_append, hstep, hstep, List.foldl_cons, Literal.next_of_isBlank hc,
        ih .outside hrest]
      cases as with
      | nil =>
        have hbs : bs.head?.any isBlank = false := by simpa [hc] using h
        simp [hbs]
      | cons d as =>
        rw [List.cons_append, List.head?_cons, List.head?_cons]
        split <;> rfl
    · have hkept : l = .outside → isBlank c = false := by simpa using hc
      rw [List.cons_append, Literal.squeeze_kept hkept, Literal.squeeze_kept hkept, ih _ hrest]
      rfl

theorem trimStart_squeeze (cs : List Char) : trimStart (squeeze cs) = squeeze (trimStart cs) := by
  -- after the blanks at the start the squeezed text has none
  have hstop (cs : List Char) : trimStart (squeeze (trimStart cs)) = squeeze (trimStart cs) :=
    trimStart_of_head? (by rw [blank_head?_squeeze, head?_trimStart])
  cases cs with
  | nil => rfl
  | cons c rest =>
    by_cases hc : isBlank c = true
    · rw [squeeze_blank hc, trimStart_cons_of_blank _ isBlank_space, trimStart_cons_of_blank _ hc,
        hstop]
    · rw [Bool.not_eq_true] at hc
      have hsame := hstop (c :: rest)
      rwa [trimStart_cons_of_not_blank rest hc] at hsame ⊢

theorem trimEnd_squeeze (cs : List Char) : trimEnd (squeeze cs) = squeeze (trimEnd cs) := by
  obtain ⟨post, hpost, hcs⟩ := exists_eq_trimEnd cs
  have hlast := getLast?_trimEnd cs
  -- what is cut off stays blank, and what is left does not end with a blank
  have hblank (l : Literal) : ∀ c ∈ l.squeeze post, isBlank c = true :=
    List.all_eq_true.1 ((isBlankText_squeeze l post).trans (List.all_eq_true.2 hpost))
  conv => lhs; rw [hcs]
  rw [squeeze, Literal.squeeze_append _ (.inl hlast), trimEnd_append_of_blank _ (hblank _)]
  exact trimEnd_of_getLast? ((any_getLast?_squeeze _ _).trans hlast)

theorem trim_squeeze (cs : List Char) : trim (squeeze cs) = squeeze (trim cs) := by
  rw [trim, trimStart_squeeze, trimEnd_squeeze, trim]

/-! ## 3. Words at the start and at the end -/

/-- A character of such a class starts both texts or none. -/
theorem SolidClass.any_head? {p : Char → Bool} (hp : SolidClass p) (cs : List Char) :
    (squeeze cs).head?.any p = cs.head?.any p := by
  cases cs with
  | nil => rfl
  | cons c rest =>
    rcases squeeze_cons c rest with ⟨-, heq⟩ | ⟨hc, d, more, hd, heq⟩
    · simp [heq]
    · simp [heq, hp.eq_false hc, hp.eq_false hd]

/-- A run of such characters at the start is the same in both texts. -/
theorem SolidClass.span {p : Char → Bool} (hp : SolidClass p) (cs : List Char) :
    (squeeze cs).takeWhile p = cs.takeWhile p ∧
      (squeeze cs).dropWhile p = squeeze (cs.dropWhile p) := by
  induction cs with
  | nil => exact ⟨rfl, rfl⟩
  | cons c rest ih =>
    rcases squeeze_cons c rest with ⟨-, heq⟩ | ⟨hc, d, more, hd, heq⟩
    · by_cases hpc : p c = true
      · simp [heq, hpc, ih]
      · simp [heq, hpc]
    · simp [heq, hp.eq_false hc, hp.eq_false hd]

/-- A word of solid characters starts both texts or none, and is taken off alike. -/
theorem isPrefixOf_squeeze {w : List Char} (hw : ∀ c ∈ w, isSolid c = true) (cs : List Char) :
    w.isPrefixOf (squeeze cs) = w.isPrefixOf cs ∧
      (w.isPrefixOf cs = true → (squeeze cs).drop w.length = squeeze (cs.drop w.length)) := by
  induction w generalizing cs with
  | nil => exact ⟨rfl, fun _ => rfl⟩
  | cons x w ih =>
    have hx := hw x (by simp)
    cases cs with
    | nil => exact ⟨rfl, fun h => by cases h⟩
    | cons c rest =>
      obtain ⟨hstarts, hdrop⟩ := ih (fun d hd => hw d (List.mem_cons_of_mem _ hd)) rest
      rcases squeeze_cons c rest with ⟨-, heq⟩ | ⟨hc, d, more, hd, heq⟩
      · rw [heq, List.isPrefixOf, List.isPrefixOf, hstarts]
        exact ⟨rfl, fun h => hdrop (Bool.and_eq_true_iff.1 h).2⟩
      · have hxc : (x == c) = false := beq_false_of_ne (ne_of_not_solid x hc hx).symm
        have hxd : (x == d) = false := beq_false_of_ne (ne_of_not_solid x hd hx).symm
        rw [heq, List.isPrefixOf, List.isPrefixOf, hxc, hxd]
        exact ⟨rfl, fun h => by cases h⟩

theorem squeeze_eq_nil_iff {cs : List Char} : squeeze cs = [] ↔ cs = [] := by
  rw [← List.isEmpty_iff, isEmpty_squeeze, List.isEmpty_iff]

/-- A word has no spacing. -/
theorem squeeze_eq_iff {w cs : List Char} (hw : ∀ c ∈ w, isSolid c = true) :
    squeeze cs = w ↔ cs = w := by
  have heq (as : List Char) : as = w ↔ w.isPrefixOf as = true ∧ as.drop w.length = [] := by
    rw [List.isPrefixOf_iff_prefix, List.prefix_iff_eq_append]
    constructor
    · rintro rfl
      simp
    · rintro ⟨hstarts, hdrop⟩
      rw [← hstarts, hdrop, List.append_nil]
  obtain ⟨hstarts, hdrop⟩ := isPrefixOf_squeeze hw cs
  rw [heq, heq, hstarts]
  refine and_congr_right fun h => ?_
  rw [hdrop h, squeeze_eq_nil_iff]

theorem squeeze_append_word {w : List Char} (hw : ∀ c ∈ w, isBlank c = false) (cs : List Char) :
    squeeze (cs ++ w) = squeeze cs ++ w := by
  have hword (l : Literal) : l.squeeze w = w := by
    induction w generalizing l with
    | nil => rfl
    | cons c w ih =>
      rw [Literal.squeeze_kept fun _ => hw c (by simp),
        ih fun d hd => hw d (List.mem_cons_of_mem _ hd)]
  have hhead : w.head?.any isBlank = false := by
    cases w with
    | nil => rfl
    | cons c w => exact hw c (by simp)
  rw [squeeze, Literal.squeeze_append _ (.inr hhead), hword]
  rfl

/-- A word ends both texts or none. -/
theorem suffix_squeeze_iff {w cs : List Char} (hw : ∀ c ∈ w, isBlank c = false) :
    w <:+ squeeze cs ↔ w <:+ cs := by
  constructor
  · rintro ⟨before, h⟩
    -- the word is taken off the end, one character after another
    obtain ⟨v, rfl⟩ : ∃ v : List Char, w = v.reverse := ⟨w.reverse, (List.reverse_reverse w).symm⟩
    induction v generalizing cs with
    | nil => exact List.nil_suffix
    | cons d v ih =>
      have hd : isBlank d = false := hw d (by simp)
      rw [List.reverse_cons, ← List.append_assoc] at h
      rcases List.eq_nil_or_concat cs with rfl | ⟨init, c, rfl⟩
      · simp at h
      · rw [List.concat_eq_append] at h ⊢
        have hlast : (squeeze (init ++ [c])).getLast?.any isBlank = _ :=
          any_getLast?_squeeze .outside (init ++ [c])
        rw [← h] at hlast
        have hc : isBlank c = false := by simpa [hd] using hlast.symm
        rw [squeeze_append_word (w := [c]) (by simpa using hc)] at h
        obtain ⟨hinit, hdc⟩ := List.append_inj' h rfl
        obtain rfl : d = c := by simpa using hdc
        obtain ⟨stem, rfl⟩ := ih (fun x hx => hw x (by simp_all)) hinit
        exact ⟨stem, by simp⟩
  · rintro ⟨stem, rfl⟩
    exact ⟨squeeze stem, (squeeze_append_word hw stem).symm⟩

/-! ## 4. Cutting -/

/-- A scanner with states `σ` that cuts a text at the first place where it stops.  It does not stop
at blanks, and sees no difference between one and several of them. -/
structure Cuts {σ : Type} (scan : σ → Scan) (next : σ → Char → σ) (stop : σ → List Char → Bool)
    (rest : List Char → List Char) (f : σ → List Char → Option (List Char × List Char)) : Prop where
  nil : ∀ s, f s [] = none
  cons : ∀ s c cs, f s (c :: cs) =
    if stop s (c :: cs) then some ([], rest (c :: cs)) else prepend [c] (f (next s c) cs)
  scan_next : ∀ s c, scan (next s c) = (scan s).next c
  next_blank : ∀ s b c, (scan s).literal = .outside → isBlank b = true → isBlank c = true →
    next (next s b) c = next s c ∧ next s b = next s c
  outside_of_stop : ∀ s cs, stop s cs = true → (scan s).literal = .outside
  stop_squeeze : ∀ s cs, (scan s).literal = .outside → stop s (squeeze cs) = stop s cs
  stop_blank : ∀ s c cs, isBlank c = true → stop s (c :: cs) = false
  rest_squeeze : ∀ s cs, stop s cs = true → rest (squeeze cs) = squeeze (rest cs)

section Cuts

variable {σ : Type} {scan : σ → Scan} {next : σ → Char → σ} {stop : σ → List Char → Bool}
  {rest : List Char → List Char} {f : σ → List Char → Option (List Char × List Char)}

/-- A run of blanks is passed over as one space is. -/
theorem Cuts.blanks (hf : Cuts scan next stop rest f) {s : σ} {c : Char}
    (hs : (scan s).literal = .outside) (hc : isBlank c = true) (cs : List Char) :
    f s (c :: cs) = prepend (c :: cs.takeWhile isBlank) (f (next s ' ') (trimStart cs)) := by
  obtain ⟨-, hnext⟩ := hf.next_blank s c ' ' hs hc isBlank_space
  rw [hf.cons, if_neg (by simp [hf.stop_blank s c cs hc])]
  induction cs generalizing s c with
  | nil => rw [hnext]; rfl
  | cons d cs ih =>
    by_cases hd : isBlank d = true
    · have hs' : (scan (next s c)).literal = .outside := by
        rw [hf.scan_next, Scan.next, hs, Literal.next_of_isBlank hc]
      obtain ⟨-, hsame⟩ := hf.next_blank (next s c) d ' ' hs' hd isBlank_space
      obtain ⟨hagain, -⟩ := hf.next_blank s c ' ' hs hc isBlank_space
      rw [hf.cons, if_neg (by simp [hf.stop_blank _ d cs hd]), ih hs' hd hsame, hagain,
        trimStart_cons_of_blank cs hd]
      simp [hd]
    · rw [Bool.not_eq_true] at hd
      rw [hnext, trimStart_cons_of_not_blank cs hd]
      simp [hd]

/-- The part before the cut starts as the text does. -/
theorem Cuts.trimStart_before (hf : Cuts scan next stop rest f) {s : σ}
    {cs before after : List Char} (h : f s cs = some (before, after))
    (hcs : cs.head?.any isBlank = false) : trimStart before = before := by
  cases cs with
  | nil => simp [hf.nil] at h
  | cons c cs =>
    rw [hf.cons] at h
    split at h
    · cases h
      rfl
    · obtain ⟨⟨b, a⟩, -, he⟩ := Option.map_eq_some_iff.1 h
      cases he
      exact trimStart_cons_of_not_blank _ hcs

/-- **A scanner cuts both texts at the same place.** -/
theorem Cuts.squeeze (hf : Cuts scan next stop rest f) (s : σ) (cs : List Char) :
    f s ((scan s).literal.squeeze cs) = (f s cs).map fun (before, after) =>
      ((scan s).literal.squeeze before, Text.squeeze after) := by
  generalize hl : (scan s).literal = l
  induction l, cs using squeeze_induction generalizing s with
  | nil => simp [hf.nil]
  | kept l c cs h ih =>
    have hnext := ih (next s c) (by rw [hf.scan_next, Scan.next, hl])
    have hkept := Literal.squeeze_kept h cs
    -- only outside of literals can the scanner stop
    have hstop : stop s (l.squeeze (c :: cs)) = stop s (c :: cs) := by
      by_cases hout : l = .outside
      · subst hout
        exact hf.stop_squeeze s _ hl
      · have hnever (as : List Char) : stop s as = false := by
          rw [Bool.eq_false_iff]
          exact fun hs => hout (hl.symm.trans (hf.outside_of_stop s as hs))
        rw [hnever, hnever]
    by_cases hs : stop s (c :: cs) = true
    · obtain rfl : l = .outside := hl.symm.trans (hf.outside_of_stop s _ hs)
      have hrest := hf.rest_squeeze s _ hs
      rw [hs, hkept] at hstop
      rw [Text.squeeze, hkept] at hrest
      rw [hkept, hf.cons, hf.cons, if_pos hstop, if_pos hs, hrest]
      rfl
    · rw [hkept] at hstop ⊢
      rw [hf.cons, hf.cons, hstop, if_neg hs, if_neg hs, hnext]
      cases f (next s c) cs with
      | none => rfl
      | some p =>
        obtain ⟨before, after⟩ := p
        simp [Literal.squeeze_kept h]
  | blank c cs h ih =>
    have hs' : (scan (next s ' ')).literal = .outside := by
      rw [hf.scan_next, Scan.next, hl, Literal.next_of_isBlank isBlank_space]
    change f s (Text.squeeze (c :: cs)) = _
    rw [squeeze_blank h, hf.cons, if_neg (by simp [hf.stop_blank s _ _ isBlank_space]), Text.squeeze,
      ih _ hs', hf.blanks hl h]
    cases hcut : f (next s ' ') (trimStart cs) with
    | none => rfl
    | some p =>
      obtain ⟨before, after⟩ := p
      have hbefore := hf.trimStart_before hcut (head?_trimStart cs)
      have hrun : ∀ d ∈ cs.takeWhile isBlank, isBlank d = true :=
        fun d hd => List.all_eq_true.1 List.all_takeWhile d hd
      have hsqueeze : Text.squeeze (c :: (cs.takeWhile isBlank ++ before)) =
          ' ' :: Text.squeeze before := by
        rw [squeeze_blank h, trimStart_append_of_blank _ hrun, hbefore]
      exact congrArg (fun b => some (b, Text.squeeze after)) hsqueeze.symm

end Cuts

/-! ## 5. The three scanners -/

/-- A blank outside of literals leaves the state as it is. -/
theorem Scan.next_of_isBlank {s : Scan} {c : Char} (hs : s.literal = .outside)
    (hc : isBlank c = true) : s.next c = s := by
  have hwithin : s = Scan.within s.depth := by rw [Scan.within, ← hs]
  rw [hwithin, Scan.next_within_of_isPlain (isPlain_of_isBlank hc)]

/-- A scanner that stops at solid characters outside of literals. -/
theorem cuts_of_solid {stops : Scan → Char → Bool}
    {f : Scan → List Char → Option (List Char × List Char)} (hnil : ∀ s, f s [] = none)
    (hcons : ∀ s c cs, f s (c :: cs) =
      if stops s c then some ([], cs) else prepend [c] (f (s.next c) cs))
    (hsolid : ∀ s, SolidClass (stops s))
    (houtside : ∀ s c, stops s c = true → s.literal = .outside) :
    Cuts id Scan.next (fun s cs => cs.head?.any (stops s)) List.tail f where
  nil := hnil
  cons := hcons
  scan_next _ _ := rfl
  next_blank s b c (hs : s.literal = .outside) hb hc := by
    rw [Scan.next_of_isBlank hs hb, Scan.next_of_isBlank hs hc]
    exact ⟨rfl, rfl⟩
  outside_of_stop s cs h := by
    cases cs with
    | nil => cases h
    | cons c cs => exact houtside s c h
  stop_squeeze s cs _ := (hsolid s).any_head? cs
  stop_blank s c cs hc := (hsolid s).eq_false (by simp [isSolid, hc])
  rest_squeeze s cs h := by
    cases cs with
    | nil => rfl
    | cons c cs => rw [squeeze_solid (hsolid s c h), List.tail_cons, List.tail_cons]

theorem cuts_closeFrom :
    Cuts id Scan.next (fun s cs => cs.head?.any fun c =>
      s.literal = .outside && isClosing c && s.literal.depthAfter s.depth c == 0) List.tail
      fun s => closeFrom s.literal s.depth := by
  refine cuts_of_solid (fun _ => rfl) (fun _ _ _ => rfl) (fun s c h => ?_) fun s c h => ?_
  · simp only [Bool.and_eq_true] at h
    obtain ⟨hblank, hquote, -⟩ := classes_of_isClosing h.1.2
    exact isSolid_iff.2 ⟨hblank, hquote⟩
  · simp only [Bool.and_eq_true, decide_eq_true_eq] at h
    exact h.1.1

theorem cuts_cutChar {target : Char} (ht : isSolid target = true) :
    Cuts id Scan.next (fun s cs => cs.head?.any fun c => s.shows c && c == target) List.tail
      (Scan.cutChar target) := by
  refine cuts_of_solid (fun _ => rfl) (fun _ _ _ => rfl) (fun s c h => ?_) fun s c h => ?_
  · simp only [Bool.and_eq_true, beq_iff_eq] at h
    exact h.2 ▸ ht
  · simp only [Scan.shows, Bool.and_eq_true, decide_eq_true_eq] at h
    exact h.1.1.1

theorem startsWithWord_squeeze {w : List Char} (hw : IsWord w) (cs : List Char) :
    startsWithWord w (squeeze cs) = startsWithWord w cs := by
  obtain ⟨hstarts, hdrop⟩ := isPrefixOf_squeeze (fun c hc => isSolid_of_isIdentChar (hw.2 c hc)) cs
  rw [startsWithWord, startsWithWord, hstarts]
  cases h : w.isPrefixOf cs with
  | false => rfl
  | true => rw [hdrop h, blank_head?_squeeze]

theorem Scan.shows_of_isBlank {c : Char} (hc : isBlank c = true) (s : Scan) :
    s.shows c = (s.literal = .outside && s.depth == 0) := by
  obtain ⟨hquote, -, hclosing⟩ := isPlain_iff.1 (isPlain_of_isBlank hc)
  simp [Scan.shows, hquote, hclosing]

theorem cuts_cutWord {w : List Char} (hw : IsWord w) :
    Cuts Prod.fst (fun (s : Scan × Bool) c => (s.1.next c, isBlank c))
      (fun s cs => s.2 && cs.head?.any s.1.shows && startsWithWord w cs) (List.drop w.length)
      (fun s => s.1.cutWord w s.2) where
  nil _ := rfl
  cons _ _ _ := rfl
  scan_next _ _ := rfl
  next_blank s b c hs hb hc := by
    rw [Scan.next_of_isBlank hs hb, Scan.next_of_isBlank hs hc, hb, hc]
    exact ⟨rfl, rfl⟩
  outside_of_stop s cs h := by
    simp only [Bool.and_eq_true] at h
    cases cs with
    | nil => cases h.1.2
    | cons c cs =>
      have hshows : s.1.shows c = true := h.1.2
      simp only [Scan.shows, Bool.and_eq_true, decide_eq_true_eq] at hshows
      exact hshows.1.1
  stop_squeeze s cs _ := by
    rw [startsWithWord_squeeze hw, any_head?_squeeze fun c hc => ?_]
    rw [Scan.shows_of_isBlank hc, Scan.shows_of_isBlank isBlank_space]
  stop_blank s c cs hc := by
    rw [startsWithWord_eq_false hw (isIdentChar_of_isBlank hc), Bool.and_false]
  rest_squeeze s cs h := by
    simp only [Bool.and_eq_true, startsWithWord] at h
    exact (isPrefixOf_squeeze (fun c hc => isSolid_of_isIdentChar (hw.2 c hc)) cs).2 h.2.1

theorem matchingClose_squeeze (cs : List Char) :
    matchingClose (squeeze cs) =
      (matchingClose cs).map fun (inner, after) => (squeeze inner, squeeze after) :=
  cuts_closeFrom.squeeze (Scan.within 1) cs

theorem hasChar_squeeze {target : Char} (ht : isSolid target = true) (cs : List Char) :
    hasChar target (squeeze cs) = hasChar target cs := by
  have hcut := (cuts_cutChar ht).squeeze Scan.start cs
  rw [hasChar, hasChar, cutChar, cutChar, squeeze]
  exact (congrArg Option.isSome hcut).trans Option.isSome_map

theorem cutWord_squeeze {w : List Char} (hw : IsWord w) (cs : List Char) :
    cutWord w (squeeze cs) =
      (cutWord w cs).map fun (before, after) => (squeeze before, squeeze after) :=
  (cuts_cutWord hw).squeeze (Scan.start, false) cs

theorem hasWord_squeeze {w : List Char} (hw : IsWord w) (cs : List Char) :
    hasWord w (squeeze cs) = hasWord w cs := by
  rw [hasWord, hasWord, cutWord_squeeze hw, Option.isSome_map]

theorem splitWord_squeeze {w : List Char} (hw : IsWord w) (cs : List Char) :
    splitWord w (squeeze cs) = (splitWord w cs).map squeeze := by
  fun_induction splitWord w cs with
  | case1 cs hcut => rw [splitWord_eq, cutWord_squeeze hw, hcut]; rfl
  | case2 cs before after hcut ih =>
    rw [splitWord_eq, cutWord_squeeze hw, hcut]
    exact congrArg (squeeze before :: ·) ih

end TemplateCompiler.Text
