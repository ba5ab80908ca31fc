import TemplateCompiler.Proofs.Expr.PhraseOperand

/-! # Reading printed phrases

The reader cuts a printed phrase where the phrase was joined, and reads the parts.  What has to
be shown depends on the rank (`Phrase.Reads`): up to chains, the scanner passes the phrase
whatever follows it; tests and negations are read on their own; conjunctions and disjunctions
are cut at all their words at once, so they are `Joined` from parts that can be read.

`Phrase.reads` puts the cases together, and `Expr.read_print` is what comes out: a printed
phrase is read as the expression it stands for.
-/

namespace TemplateCompiler

open Text Reading

/-! ## 1. Tight texts -/

/-- Blanks around a text do not matter. -/
theorem Expr.read_padded {cs pre post : List Char} (h : Tight cs)
    (hpre : ∀ c ∈ pre, isBlank c = true) (hpost : ∀ c ∈ post, isBlank c = true) :
    Expr.read (pre ++ (cs ++ post)) = Expr.read cs := by
  rw [Expr.read_eq, Expr.read_eq cs, readWith, readWith, h.trim hpre hpost, h.trim_self]
  simp only [h.isEmpty]
  rfl

/-- A text with a looser word is not an `is` test. -/
theorem Expr.read_of_looser {cs : List Char} (h : Tight cs) (hloose : hasLooserWord cs = true) :
    Expr.read cs = boolean Expr.read cs := by
  rw [Expr.read_eq, readWith, h.trim_self]
  simp only [h.isEmpty, hloose]
  rfl

/-- A text without one is, if it has the word. -/
theorem Expr.read_of_not_looser {cs : List Char} (h : Tight cs)
    (hloose : hasLooserWord cs = false) :
    Expr.read cs =
      match cutWord "is".toList cs with
      | some (before, after) => test Expr.read cs (trim before) (trim after)
      | none => boolean Expr.read cs := by
  rw [Expr.read_eq, readWith, h.trim_self]
  simp only [h.isEmpty, hloose]
  rfl

/-- A text that shows none of the four words is not cut before `is` is looked for. -/
theorem hasLooserWord_eq_false {cs : List Char} (hor : Skips "or".toList cs)
    (hand : Skips "and".toList cs) (hin : Skips "in".toList cs)
    (hnot : afterKeyword? "not".toList cs = none) : hasLooserWord cs = false := by
  rw [hasLooserWord, hor.hasWord, hand.hasWord, hin.hasWord, hnot]
  rfl

theorem hasLooserWord_of_hasWord {w cs : List Char}
    (hw : w ∈ ["or".toList, "and".toList, "in".toList]) (h : hasWord w cs = true) :
    hasLooserWord cs = true := by
  simp only [List.mem_cons, List.not_mem_nil, or_false] at hw
  rw [hasLooserWord]
  rcases hw with rfl | rfl | rfl
  · rw [h]
    rfl
  · rw [h, Bool.or_true]
    rfl
  · rw [h, Bool.or_true]
    rfl

theorem Text.Skips.splitWord {w cs : List Char} (h : Skips w cs) : splitWord w cs = [cs] := by
  rw [splitWord_eq, h.cutWord]

/-- A text without `or` and `and` is a negation, a membership test or a chain. -/
theorem boolean_of_skips {cs : List Char} (hor : Skips "or".toList cs)
    (hand : Skips "and".toList cs) :
    boolean Expr.read cs =
      match afterKeyword? "not".toList cs with
      | some rest => do return .not (← Expr.read rest)
      | none =>
        match cutWord "in".toList cs with
        | some (before, after) => membership Expr.read cs before after
        | none => chain Expr.read cs (cs.length + 1) none false cs := by
  rewrite [boolean, hor.splitWord, hand.splitWord]
  rfl

/-- A text that shows none of the words at which texts are cut, and does not start with a negation,
is a chain. -/
theorem Expr.read_of_skips {cs : List Char} (h : Tight cs)
    (hskips : ∀ w ∈ cuttingWords, Skips w cs) (hnot : afterKeyword? "not".toList cs = none) :
    Expr.read cs = chain Expr.read cs (cs.length + 1) none false cs := by
  have hor := hskips "or".toList (by decide)
  have hand := hskips "and".toList (by decide)
  have hin := hskips "in".toList (by decide)
  have his := hskips "is".toList (by decide)
  rw [Expr.read_of_not_looser h (hasLooserWord_eq_false hor hand hin hnot), his.cutWord]
  dsimp only
  rw [boolean_of_skips hor hand, hnot, hin.cutWord]

/-- A text without blanks at top level that is one operand. -/
theorem Expr.read_of_accessed {c : Char} {rest : List Char} {e : Expr}
    (hcs : Balanced NotBlank (c :: rest)) (htight : Tight (c :: rest))
    (hword : isReservedWord (c :: rest) = false)
    (hfirst : (c :: rest).takeWhile isIdentChar ≠ "not".toList) (hminus : c ≠ '-') (hplus : c ≠ '+')
    (h : accessed (c :: rest) (c :: rest) = .ok (e, [])) : Expr.read (c :: rest) = .ok e := by
  obtain ⟨d, more, hd, hblank⟩ := htight.head
  cases hd
  rw [Expr.read_of_skips htight (fun _ hw => skips_chunk hw htight.ne_nil hcs hword)
    (afterKeyword?_eq_none (by decide) hfirst), chain,
    operand_of_accessed (signs_cons rest hblank hminus hplus) h]
  rfl

/-! ## 2. Chains and tests -/

/-- **A printed chain is read on its own.** -/
theorem Phrase.Chained.read {compares : Bool} {p : Phrase (.chain compares)} (h : p.Chained) :
    Expr.read p.print = .ok p.expr := by
  have hnot : afterKeyword? "not".toList p.print = none := by
    simpa using p.afterKeyword?_print rfl wordEnd_nil
  rw [Expr.read_of_skips p.tight (fun _ hw => p.skips hw) hnot]
  exact h.chain_print

theorem memberItem_print {p : Phrase (.chain false)} :
    memberItem (p.print ++ [' ']) = (p.print, false) := by
  have hleft : trimEnd (p.print ++ [' ']) = p.print := by
    rw [trimEnd_append_of_blank _ isBlank_of_mem_space]
    simpa using p.tight.trimEnd []
  rw [memberItem, hleft]
  have hstem : ("not".toList.isSuffixOf p.print &&
      (p.print.take (p.print.length - 3)).getLast?.any isBlank) = false := by
    rw [Bool.and_eq_false_imp]
    intro hsuffix
    obtain ⟨stem, hstem⟩ := List.isSuffixOf_iff_suffix.1 hsuffix
    have htake : p.print.take (p.print.length - 3) = stem := by
      rw [← hstem]
      simp
    -- a chain shows no word `not`, so it cannot end with one
    have hskips : Skips "not".toList p.print := p.skips (by decide)
    have hbal := p.balanced
    rw [← hstem] at hskips hbal
    rw [htake]
    exact Skips.getLast?_stem (by decide) hbal hskips
  simp only [hstem]
  rfl

theorem memberItem_print_not {p : Phrase (.chain false)} :
    memberItem (p.print ++ ' ' :: ("not".toList ++ [' '])) = (p.print, true) := by
  have hword : Tight "not".toList :=
    tight_of_isIdentChar (by decide) (forall_mem_of_all (by decide))
  have hleft : trimEnd (p.print ++ ' ' :: ("not".toList ++ [' '])) =
      p.print ++ [' '] ++ "not".toList := by
    have htext : p.print ++ ' ' :: ("not".toList ++ [' ']) =
        p.print ++ [' '] ++ "not".toList ++ [' '] := by
      simp
    rw [htext, trimEnd_append_of_blank _ isBlank_of_mem_space, hword.trimEnd]
  have hstem : trimEnd (p.print ++ [' ']) = p.print := by
    rw [trimEnd_append_of_blank _ isBlank_of_mem_space]
    simpa using p.tight.trimEnd []
  have hsuffix : "not".toList.isSuffixOf (p.print ++ [' '] ++ "not".toList) = true :=
    List.isSuffixOf_iff_suffix.2 ⟨_, rfl⟩
  have htake : (p.print ++ [' '] ++ "not".toList).take
      ((p.print ++ [' '] ++ "not".toList).length - 3) = p.print ++ [' '] :=
    List.take_left' (by simp)
  have hlast : (p.print ++ [' ']).getLast?.any isBlank = true := by
    rw [List.getLast?_concat]
    decide
  simp only [memberItem, hleft, hsuffix, htake, hlast, hstem]
  rfl

theorem Phrase.read_member (negated : Bool) {element container : Phrase (.chain false)}
    (he : element.Chained) (hc : container.Chained) :
    Expr.read (Phrase.member negated element container).print =
      .ok (Phrase.member negated element container).expr := by
  have hskips {w : List Char} (hw : w ∈ Rank.test.absentWords) :=
    (Phrase.member negated element container).skips hw
  have hor := hskips (w := "or".toList) (by decide)
  have hand := hskips (w := "and".toList) (by decide)
  have htight := (Phrase.member negated element container).tight
  have htrim := container.tight.trim_blank_cons
  have helement : Skips "in".toList element.print := element.skips (by decide)
  -- where the text is cut
  obtain ⟨before, hcut, hitem⟩ : ∃ before,
      cutWord "in".toList (Phrase.member negated element container).print =
        some (before, ' ' :: container.print) ∧
      memberItem before = (element.print, negated) := by
    cases negated with
    | false =>
      exact ⟨_, helement.cutWord_word (by decide) false container.print, memberItem_print⟩
    | true =>
      have hnot : Skips "in".toList (element.print ++ ' ' :: "not".toList) :=
        helement.join (Balanced.skips (by decide) (Balanced.of_plain (forall_mem_of_all (by decide)))
          (by decide) (by decide))
      refine ⟨_, ?_, memberItem_print_not⟩
      have hword := hnot.cutWord_word (by decide) false container.print
      simpa [print, spaced, Text.cutWord] using hword
  have hloose : hasLooserWord (Phrase.member negated element container).print = true :=
    hasLooserWord_of_hasWord (w := "in".toList) (by decide) (by rw [hasWord, hcut]; rfl)
  have hnot : afterKeyword? "not".toList (Phrase.member negated element container).print = none :=
    element.afterKeyword?_print rfl (wordEnd_cons (by decide) _)
  rw [Expr.read_of_looser htight hloose, boolean_of_skips hor hand, hnot, hcut]
  simp only [membership, hitem, htrim, element.tight.isEmpty, container.tight.isEmpty, hc.read,
    he.read]
  rfl

/-- The name of a test, as it stands after the word `is`. -/
def testName (negated undefined : Bool) : List Char :=
  (if negated then "not " else "").toList ++ (if undefined then "undefined" else "defined").toList

theorem test_testName {self : Reader} {subject : List Char} {e : Expr} (source : List Char)
    (negated undefined : Bool) (h : self subject = .ok e) :
    test self source subject (trim (' ' :: testName negated undefined)) =
      .ok (.defined (negated != undefined) e) := by
  rw [test, h]
  cases negated <;> cases undefined <;> rfl

theorem Phrase.read_defined {subject : Phrase (.chain false)} (negated undefined : Bool)
    (h : subject.Chained) :
    Expr.read (Phrase.defined subject negated undefined).print =
      .ok (Phrase.defined subject negated undefined).expr := by
  have hskips {w : List Char} (hw : w ∈ Rank.test.absentWords) :=
    (Phrase.defined subject negated undefined).skips hw
  have hword {w cs : List Char} (hw : IsWord w) (hcs : IsWord cs) (hne : cs ≠ w) : Skips w cs :=
    Balanced.skips hw ((balanced_of_isIdentChar hcs.2).mono fun _ hc => hc.2) hcs.1 hne
  have hor := hskips (w := "or".toList) (by decide)
  have hand := hskips (w := "and".toList) (by decide)
  have hin : Skips "in".toList (Phrase.defined subject negated undefined).print := by
    have hs : Skips "in".toList subject.print := subject.skips (by decide)
    refine hs.spaced ?_ ?_
    · cases negated with
      | false => exact hword (by decide) (by decide) (by decide)
      | true =>
        exact (hword (by decide) (by decide) (by decide) : Skips "in".toList "is".toList).join
          (hword (by decide) (by decide) (by decide) : Skips "in".toList "not".toList)
    · cases undefined <;> exact hword (by decide) (by decide) (by decide)
  have hnot : afterKeyword? "not".toList (Phrase.defined subject negated undefined).print = none :=
    subject.afterKeyword?_print rfl (wordEnd_cons (by decide) _)
  have htrim := subject.tight.trim_concat_blank
  have hs : Skips "is".toList subject.print := subject.skips (by decide)
  have hcut : cutWord "is".toList (Phrase.defined subject negated undefined).print =
      some (subject.print ++ [' '], ' ' :: testName negated undefined) := by
    have h := hs.cutWord_word (by decide) false (testName negated undefined)
    cases negated <;> exact h
  have hloose := hasLooserWord_eq_false hor hand hin hnot
  rw [Expr.read_of_not_looser (Phrase.defined subject negated undefined).tight hloose, hcut]
  dsimp only
  rw [htrim, test_testName _ negated undefined h.read]
  rfl

/-! ## 3. Negations -/

theorem afterKeyword?_append {w cs : List Char} (h : Tight cs) :
    afterKeyword? w (w ++ ' ' :: cs) = some cs := by
  have hprefix : w.isPrefixOf (w ++ ' ' :: cs) = true := List.isPrefixOf_iff_prefix.2 ⟨_, rfl⟩
  rw [afterKeyword?, if_pos hprefix]
  simp [show isBlank ' ' = true by decide, h.trim_blank_cons]

theorem Phrase.read_not {p : Phrase .negation} (h : Expr.read p.print = .ok p.expr) :
    Expr.read (Phrase.not p).print = .ok (Phrase.not p).expr := by
  have hafter : afterKeyword? "not".toList (Phrase.not p).print = some p.print :=
    afterKeyword?_append p.tight
  have hloose : hasLooserWord (Phrase.not p).print = true := by
    rw [hasLooserWord, hafter]
    exact Bool.or_true _
  rw [Expr.read_of_looser (Phrase.not p).tight hloose,
    boolean_of_skips ((Phrase.not p).skips (by decide)) ((Phrase.not p).skips (by decide)), hafter]
  dsimp only
  rw [h]
  rfl

/-! ## 4. Conjunctions and disjunctions -/

/-- A part of a joined text: it does not show the word, and can be read. -/
structure IsPart (w : List Char) (p : List Char × Expr) : Prop where
  skips : Skips w p.1
  tight : Tight p.1
  read : Expr.read p.1 = .ok p.2

/-- The text and the expression that come of parts with the word `w` between them. -/
def Joined (w : List Char) (join : Expr → Expr → Expr) (cs : List Char) (e : Expr) : Prop :=
  ∃ (first : List Char × Expr) (rest : List (List Char × Expr)),
    IsPart w first ∧ (∀ p ∈ rest, IsPart w p) ∧
      cs = joinWith w first.1 (rest.map (·.1)) ∧
      e = rest.foldl (fun e p => join e p.2) first.2

theorem Joined.one {w cs : List Char} {e : Expr} (join : Expr → Expr → Expr)
    (h : IsPart w (cs, e)) : Joined w join cs e :=
  ⟨(cs, e), [], h, by simp, rfl, rfl⟩

theorem Joined.snoc {w cs ds : List Char} {join : Expr → Expr → Expr} {e d : Expr}
    (h : Joined w join cs e) (hd : IsPart w (ds, d)) :
    Joined w join (spaced cs w ds) (join e d) := by
  obtain ⟨first, rest, hfirst, hrest, rfl, rfl⟩ := h
  refine ⟨first, rest ++ [(ds, d)], hfirst, ?_, ?_, ?_⟩
  · intro p hp
    rcases List.mem_append.1 hp with hp | hp
    · exact hrest p hp
    · obtain rfl : p = (ds, d) := by simpa using hp
      exact hd
  · rw [List.map_append, List.map_singleton, joinWith_concat, spaced]
  · rw [List.foldl_append]
    rfl

/-- A part with blanks beside it is read as the part. -/
theorem IsPart.part {w : List Char} {p : List Char × Expr} (h : IsPart w p)
    (source pre post : List Char) (hpre : ∀ c ∈ pre, isBlank c = true)
    (hpost : ∀ c ∈ post, isBlank c = true) :
    part Expr.read source (pre ++ (p.1 ++ post)) = .ok p.2 := by
  have hblank : isBlankText (pre ++ (p.1 ++ post)) = false := by
    obtain ⟨c, more, hp, hc⟩ := h.tight.head
    simp [isBlankText, hp, hc]
  rw [Reading.part, hblank, Expr.read_padded h.tight hpre hpost, h.read]
  rfl

/-- The parts of a joined text, each with the blanks beside it, are read one after another. -/
theorem foldlM_partsOf {w : List Char} (join : Expr → Expr → Expr) (source : List Char)
    {p : List Char × Expr} {rest : List (List Char × Expr)} (acc : Expr) (hp : IsPart w p)
    (hrest : ∀ p ∈ rest, IsPart w p) :
    (partsOf (' ' :: p.1) (rest.map (·.1))).foldlM
        (fun acc cs => do return join acc (← part Expr.read source cs)) acc =
      .ok ((p :: rest).foldl (fun e p => join e p.2) acc) := by
  induction rest generalizing p acc with
  | nil =>
    have hread := hp.part source [' '] [] isBlank_of_mem_space (by simp)
    simp only [List.append_nil, List.cons_append, List.nil_append] at hread
    simp only [List.map_nil, partsOf, List.foldlM_cons, List.foldlM_nil, hread]
    rfl
  | cons q rest ih =>
    have hread := hp.part source [' '] [' '] isBlank_of_mem_space isBlank_of_mem_space
    have hmore := ih (join acc p.2) (hrest q (by simp)) fun r hr => hrest r (by simp [hr])
    simp only [List.map_cons, partsOf, List.foldlM_cons, List.cons_append]
    simp only [List.cons_append, List.nil_append] at hread
    rw [hread]
    exact hmore

/-- **A joined text is read as the joined expression**, if the reader cuts it at its word. -/
theorem Joined.read {w cs : List Char} {join : Expr → Expr → Expr} {e : Expr}
    (h : Joined w join cs e) (hcs : Tight cs) (hw : w ∈ ["or".toList, "and".toList, "in".toList])
    (hcut : ∀ first second rest, splitWord w cs = first :: second :: rest →
      boolean Expr.read cs = joinParts Expr.read cs join first (second :: rest)) :
    Expr.read cs = .ok e := by
  have hword : IsWord w := by
    have hall : ∀ w ∈ ["or".toList, "and".toList, "in".toList], IsWord w := by decide
    exact hall w hw
  obtain ⟨first, rest, hfirst, hrest, rfl, rfl⟩ := h
  cases rest with
  | nil => exact hfirst.read
  | cons q rest =>
    rw [List.map_cons, joinWith] at hcs hcut ⊢
    generalize hsource : first.1 ++ ' ' :: (w ++ ' ' :: joinWith w q.1 (rest.map (·.1))) = source
      at hcs hcut ⊢
    have hfind : hasWord w source = true := by
      have hcut := hfirst.skips.cutWord_word hword false (joinWith w q.1 (rest.map (·.1)))
      rw [hsource] at hcut
      rw [hasWord, Text.cutWord, Scan.start_eq_within, hcut]
      rfl
    have hskips : ∀ cs ∈ (q :: rest).map (·.1), Skips w cs := by
      intro cs hmem
      obtain ⟨p, hp, rfl⟩ := List.mem_map.1 hmem
      exact (hrest p hp).skips
    have hsplit := splitWord_joinWith hword hfirst.skips hskips
    obtain ⟨second, more, hparts⟩ :
        ∃ second more, partsOf (' ' :: q.1) (rest.map (·.1)) = second :: more := by
      cases rest <;> exact ⟨_, _, rfl⟩
    rw [List.map_cons, joinWith, hsource, partsOf, hparts] at hsplit
    have hread := hfirst.part source [] [' '] (by simp) isBlank_of_mem_space
    have hmore := foldlM_partsOf join source first.2 (hrest q (by simp))
      (fun p (hp : p ∈ rest) => hrest p (by simp [hp]))
    rw [hparts] at hmore
    rw [List.nil_append] at hread
    rw [Expr.read_of_looser hcs (hasLooserWord_of_hasWord hw hfind), hcut _ _ _ hsplit, joinParts,
      hread]
    exact hmore

theorem Phrase.read_conjunction {p : Phrase .conjunction}
    (h : Joined "and".toList .and p.print p.expr) : Expr.read p.print = .ok p.expr := by
  have hor : Skips "or".toList p.print := p.skips (by decide)
  refine h.read p.tight (by decide) fun first second rest hs => ?_
  rw [boolean, hor.splitWord, hs]

theorem Phrase.read_disjunction {p : Phrase .disjunction}
    (h : Joined "or".toList .or p.print p.expr) : Expr.read p.print = .ok p.expr := by
  refine h.read p.tight (by decide) fun first second rest hs => ?_
  rw [boolean, hs]

/-- A negation is a part of a conjunction. -/
theorem Phrase.isPart_negation {p : Phrase .negation} (h : Expr.read p.print = .ok p.expr) :
    IsPart "and".toList (p.print, p.expr) :=
  ⟨p.skips (by decide), p.tight, h⟩

/-- A conjunction is a part of a disjunction. -/
theorem Phrase.isPart_conjunction {p : Phrase .conjunction}
    (h : Joined "and".toList .and p.print p.expr) : IsPart "or".toList (p.print, p.expr) :=
  ⟨p.skips (by decide), p.tight, Phrase.read_conjunction h⟩

/-! ## 5. All phrases -/

/-- What reading a phrase comes to, by rank. -/
def Phrase.Reads : {r : Rank} → Phrase r → Prop
  | .primary, p => p.Accessed
  | .signed, p => p.Signed
  | .operand, p => p.Filtered
  | .chain _, p => p.Chained
  | .test, p | .negation, p => Expr.read p.print = .ok p.expr
  | .conjunction, p => Joined "and".toList .and p.print p.expr
  | .disjunction, p => Joined "or".toList .or p.print p.expr

/-- **Every phrase is read.** -/
theorem Phrase.reads {r : Rank} (p : Phrase r) : p.Reads := by
  induction p with
  | text q hq pieces => exact accessed_text hq pieces
  | int digits h => exact accessed_int h
  | constant c => exact accessed_constant c
  | name n h => exact accessed_name h
  | group inner ih => exact accessed_group (read_disjunction ih)
  | attr subject n h ih => exact accessed_attr h ih
  | item subject key ihs ihk => exact accessed_item ihs (read_disjunction ihk)
  | sign negative operand ih => exact signed_sign negative ih
  | filter operand f ih => exact filtered_filter f ih
  | arith left op hop right ihl ihr => exact chained_arith hop ihl ihr
  | compare left op hop right ihl ihr => exact chained_compare hop ihl ihr
  | member negated element container ihe ihc => exact read_member negated ihe ihc
  | defined subject negated undefined ih => exact read_defined negated undefined ih
  | not operand ih => exact read_not ih
  | and left right ihl ihr => exact ihl.snoc (isPart_negation ihr)
  | or left right ihl ihr => exact ihl.snoc (isPart_conjunction ihr)
  | lift h inner ih =>
    cases h with
    | primary => exact signed_lift ih
    | signed => exact filtered_lift ih
    | operand => exact chained_lift ih
    | chain => exact Chained.read ih
    | test => exact ih
    | negation => exact .one _ (isPart_negation ih)
    | conjunction => exact .one _ (isPart_conjunction ih)

/-- **A printed phrase is read as the expression it stands for.** -/
theorem Expr.read_print (p : Phrase .disjunction) : Expr.read p.print = .ok p.expr :=
  Phrase.read_disjunction p.reads

end TemplateCompiler
