import TemplateCompiler.Proofs.Expr.Phrase
import TemplateCompiler.Proofs.Text.Balanced
import TemplateCompiler.Proofs.Text.Trim
import TemplateCompiler.Proofs.Text.Word

/-! # What a printed phrase looks like

The reader cuts a text at words before it looks at anything else, so it has to be known which
words a printed phrase shows at top level.  By rank:

* every printed phrase is balanced and tight, and shows no comma and no colon
  (`Phrase.balanced`, `Phrase.tight`);
* primary and signed phrases are single chunks, and no keyword (`Phrase.chunk`,
  `Phrase.isReservedWord_print`);
* a phrase shows only the words that its own rank or a tighter one joins with (`Phrase.skips`);
* a chain does not start with the word `not` (`Phrase.afterKeyword?_print`).
-/

namespace TemplateCompiler

open Text Reading

/-! ## 1. Words -/

/-- The words at which a text is cut. -/
def cuttingWords : List (List Char) :=
  ["or".toList, "and".toList, "in".toList, "is".toList, "not".toList]

theorem isWord_of_mem_cuttingWords {w : List Char} (h : w ∈ cuttingWords) : IsWord w := by
  have hall : ∀ w ∈ cuttingWords, IsWord w := by decide
  exact hall w h

theorem isReservedWord_of_mem_cuttingWords {w : List Char} (h : w ∈ cuttingWords) :
    isReservedWord w = true := by
  have hall : ∀ w ∈ cuttingWords, isReservedWord w = true := by decide
  exact hall w h

/-- Reserved words are made of letters. -/
theorem isAlpha_of_isReservedWord {w : List Char} (h : isReservedWord w = true) :
    w ≠ [] ∧ ∀ c ∈ w, c.isAlpha = true := by
  have hall : ∀ s ∈ reservedWords, s.toList ≠ [] ∧ s.toList.all Char.isAlpha = true := by decide
  obtain ⟨s, hs, he⟩ := List.any_eq_true.1 h
  obtain rfl : s.toList = w := by simpa using he
  exact ⟨(hall s hs).1, List.all_eq_true.1 (hall s hs).2⟩

/-- A text with a character that is no letter is not a reserved word. -/
theorem isReservedWord_eq_false {w : List Char} {c : Char} (hc : c ∈ w) (ha : c.isAlpha = false) :
    isReservedWord w = false := by
  rw [Bool.eq_false_iff]
  intro h
  simp [(isAlpha_of_isReservedWord h).2 c hc] at ha

theorem isReservedWord_eq_false_of_not_mem {w : List Char} (h : w ∉ languageWords) :
    isReservedWord w = false := by
  have hall : ∀ s ∈ reservedWords, s.toList ∈ languageWords := by decide
  rw [Bool.eq_false_iff]
  intro hw
  obtain ⟨s, hs, he⟩ := List.any_eq_true.1 hw
  obtain rfl : s.toList = w := by simpa using he
  exact h (hall s hs)

theorem IsVariable.isReservedWord_eq_false {n : List Char} (h : IsVariable n) :
    isReservedWord n = false :=
  isReservedWord_eq_false_of_not_mem h.not_keyword

theorem IsVariable.constant?_eq_none {n : List Char} (h : IsVariable n) : constant? n = none := by
  obtain ⟨ht, hT, hf, hF, hn, hN⟩ : n ≠ "true".toList ∧ n ≠ "True".toList ∧ n ≠ "false".toList ∧
      n ≠ "False".toList ∧ n ≠ "none".toList ∧ n ≠ "None".toList := by
    simpa only [constantWords, List.mem_cons, List.not_mem_nil, or_false, not_or] using
      h.not_constant
  rw [constant?, if_neg (not_or.2 ⟨ht, hT⟩), if_neg (not_or.2 ⟨hf, hF⟩),
    if_neg (not_or.2 ⟨hn, hN⟩)]

theorem Constant.isIdentifier_print (c : Constant) : isIdentifier c.print = true := by
  cases c with
  | yes capital => cases capital <;> decide
  | no capital => cases capital <;> decide
  | nothing capital => cases capital <;> decide

/-! ## 2. Balanced and tight -/

/-- Neither a comma nor a colon. -/
def NoSeparator (c : Char) : Prop := c ≠ ',' ∧ c ≠ ':'

instance (c : Char) : Decidable (NoSeparator c) := inferInstanceAs (Decidable (_ ∧ _))

/-- Not a blank. -/
def NotBlank (c : Char) : Prop := isBlank c = false

instance (c : Char) : Decidable (NotBlank c) := inferInstanceAs (Decidable (_ = _))

theorem noSeparator_of_isIdentChar {c : Char} (h : isIdentChar c = true) : NoSeparator c := by
  constructor <;> rintro rfl <;> exact absurd h (by decide)

theorem Piece.literalBody {q : Char} (pieces : List (Piece q)) :
    LiteralBody q (pieces.flatMap Piece.print) := by
  induction pieces with
  | nil => exact .nil
  | cons piece pieces ih =>
    cases piece with
    | raw c hc hb => exact .plain hb hc ih
    | escape e => exact .escape ih

/-- Characters of names are balanced on their own. -/
theorem balanced_of_isIdentChar {cs : List Char} (h : ∀ c ∈ cs, isIdentChar c = true) :
    Balanced (fun c => NoSeparator c ∧ NotBlank c) cs :=
  Balanced.of_plain fun c hc =>
    ⟨isPlain_of_isIdentChar (h c hc), noSeparator_of_isIdentChar (h c hc),
      isBlank_of_isIdentChar (h c hc)⟩

theorem BinOp.balanced_symbol (op : BinOp) :
    Balanced (fun c => NoSeparator c ∧ NotBlank c) op.symbol := by
  refine Balanced.of_plain (forall_mem_of_all ?_)
  cases op <;> decide

theorem Filter.balanced_print (f : Filter) :
    Balanced (fun c => NoSeparator c ∧ NotBlank c) f.print := by
  refine (balanced_of_isIdentChar fun _ hc => isIdentChar_of_mem f.isIdentifier_name hc).append ?_
  cases ha : f.arguments with
  | none =>
    rw [argumentText, ha]
    exact .nil
  | some a =>
    rw [argumentText, ha]
    exact .bracketed (by decide) (by decide) (f.balanced_arguments a ha)

theorem Text.Balanced.spaced {left word right : List Char} (hl : Balanced NoSeparator left)
    (hw : Balanced NoSeparator word) (hr : Balanced NoSeparator right) :
    Balanced NoSeparator (spaced left word right) := by
  exact hl.append (.plain (by decide) (by decide) (hw.append (.plain (by decide) (by decide) hr)))

/-- **Every printed phrase is balanced and shows neither commas nor colons.** -/
theorem Phrase.balanced {r : Rank} (p : Phrase r) : Balanced NoSeparator p.print := by
  have hident {cs : List Char} (h : ∀ c ∈ cs, isIdentChar c = true) : Balanced NoSeparator cs :=
    (balanced_of_isIdentChar h).mono fun _ hc => hc.1
  have hsymbol (op : BinOp) : Balanced NoSeparator op.symbol :=
    op.balanced_symbol.mono fun _ hc => hc.1
  induction p with
  | text q hq pieces => exact .literal hq (Piece.literalBody pieces) .nil
  | int digits h => exact hident fun c hc => isIdentChar_of_isDigit (h.digits.2 c hc)
  | constant c => exact hident fun _ hc => isIdentChar_of_mem c.isIdentifier_print hc
  | name n h => exact hident fun _ hc => isIdentChar_of_mem h.isIdentifier hc
  | group inner ih => exact .bracketed (by decide) (by decide) ih
  | attr subject n h ih =>
    exact ih.append (.plain (by decide) (by decide)
      (hident fun _ hc => isIdentChar_of_mem h hc))
  | item subject key ihs ihk => exact ihs.append (.bracketed (by decide) (by decide) ihk)
  | sign negative operand ih =>
    cases negative <;> exact .plain (by decide) (by decide) ih
  | filter operand f ih =>
    exact ih.spaced (.plain (by decide) (by decide) .nil) (f.balanced_print.mono fun _ hc => hc.1)
  | arith left op _ right ihl ihr => exact ihl.spaced (hsymbol op) ihr
  | compare left op _ right ihl ihr => exact ihl.spaced (hsymbol op) ihr
  | member negated element container ihe ihc =>
    refine ihe.spaced (Balanced.of_plain (forall_mem_of_all ?_)) ihc
    cases negated <;> decide
  | defined subject negated undefined ih =>
    refine ih.spaced (Balanced.of_plain (forall_mem_of_all ?_))
      (Balanced.of_plain (forall_mem_of_all ?_))
    · cases negated <;> decide
    · cases undefined <;> decide
  | not operand ih =>
    have hnot : Balanced NoSeparator "not ".toList :=
      Balanced.of_plain (forall_mem_of_all (by decide))
    exact hnot.append ih
  | and left right ihl ihr => exact ihl.spaced (hident (forall_mem_of_all (by decide))) ihr
  | or left right ihl ihr => exact ihl.spaced (hident (forall_mem_of_all (by decide))) ihr
  | lift _ inner ih => exact ih

/-- A text between two characters that are not blank. -/
theorem tight_between {a c : Char} (bs : List Char) (ha : isBlank a = false)
    (hc : isBlank c = false) : Tight (a :: (bs ++ [c])) :=
  ⟨⟨a, bs ++ [c], rfl, ha⟩, ⟨a :: bs, c, rfl, hc⟩⟩

theorem Text.Tight.spaced {left right : List Char} (word : List Char) (hl : Tight left)
    (hr : Tight right) : Tight (spaced left word right) := by
  have h := hl.append (' ' :: (word ++ [' '])) hr
  simpa [TemplateCompiler.spaced] using h

/-- A tight text after another character stays tight. -/
theorem Text.Tight.cons {a : Char} {cs : List Char} (ha : isBlank a = false) (h : Tight cs) :
    Tight (a :: cs) := by
  obtain ⟨init, c, rfl, hc⟩ := h.last
  exact ⟨⟨a, init ++ [c], rfl, ha⟩, ⟨a :: init, c, rfl, hc⟩⟩

theorem Filter.tight_print (f : Filter) : Tight f.print := by
  have hname : Tight f.name := tight_of_isIdentChar (ne_nil_of_isIdentifier f.isIdentifier_name)
    fun _ hc => isIdentChar_of_mem f.isIdentifier_name hc
  cases ha : f.arguments with
  | none =>
    rw [print, argumentText, ha]
    simpa using hname
  | some a =>
    rw [print, argumentText, ha]
    exact hname.append [] (tight_between a (by decide) (by decide))

/-- **Every printed phrase is tight.** -/
theorem Phrase.tight {r : Rank} (p : Phrase r) : Tight p.print := by
  have hname {n : List Char} (h : isIdentifier n = true) : Tight n :=
    tight_of_isIdentChar (ne_nil_of_isIdentifier h) fun _ hc => isIdentChar_of_mem h hc
  induction p with
  | text q hq pieces =>
    have hb := (classes_of_isQuote hq).1
    exact tight_between _ hb hb
  | int digits h =>
    exact tight_of_isIdentChar h.digits.1 fun c hc => isIdentChar_of_isDigit (h.digits.2 c hc)
  | constant c => exact hname c.isIdentifier_print
  | name n h => exact hname h.isIdentifier
  | group inner _ => exact tight_between _ (by decide) (by decide)
  | attr subject n h ih => exact ih.append ['.'] (hname h)
  | item subject key ih _ => exact ih.append [] (tight_between _ (by decide) (by decide))
  | sign negative operand ih => cases negative <;> exact ih.cons (by decide)
  | filter operand f ih => exact ih.spaced _ f.tight_print
  | arith left op _ right ihl ihr => exact ihl.spaced _ ihr
  | compare left op _ right ihl ihr => exact ihl.spaced _ ihr
  | member negated element container ihe ihc => exact ihe.spaced _ ihc
  | defined subject negated undefined ih =>
    refine ih.spaced _ (hname ?_)
    cases undefined <;> decide
  | not operand ih =>
    have hnot : Tight "not".toList := hname (by decide)
    exact hnot.append [' '] ih
  | and left right ihl ihr => exact ihl.spaced _ ihr
  | or left right ihl ihr => exact ihl.spaced _ ihr
  | lift _ inner ih => exact ih

/-! ## 3. Chunks -/

/-- Whether the phrases of a rank are single chunks. -/
def Rank.isChunk : Rank → Bool
  | .primary | .signed => true
  | _ => false

/-- Whether the phrases of a rank are chains, or tighter. -/
def Rank.isChain : Rank → Bool
  | .primary | .signed | .operand | .chain _ => true
  | _ => false

/-- **Primary and signed phrases show no blank.** -/
theorem Phrase.chunk {r : Rank} (p : Phrase r) (hr : r.isChunk = true) :
    Balanced NotBlank p.print := by
  have hident {cs : List Char} (h : ∀ c ∈ cs, isIdentChar c = true) : Balanced NotBlank cs :=
    (balanced_of_isIdentChar h).mono fun _ hc => hc.2
  induction p with
  | text q hq pieces => exact .literal hq (Piece.literalBody pieces) .nil
  | int digits h => exact hident fun c hc => isIdentChar_of_isDigit (h.digits.2 c hc)
  | constant c => exact hident fun _ hc => isIdentChar_of_mem c.isIdentifier_print hc
  | name n h => exact hident fun _ hc => isIdentChar_of_mem h.isIdentifier hc
  | group inner _ => exact .bracketed (by decide) (by decide) inner.balanced
  | attr subject n h ih =>
    exact (ih rfl).append
      (.plain (by decide) (by decide) (hident fun _ hc => isIdentChar_of_mem h hc))
  | item subject key ih _ =>
    exact (ih rfl).append (.bracketed (by decide) (by decide) key.balanced)
  | sign negative operand ih => cases negative <;> exact .plain (by decide) (by decide) (ih rfl)
  | lift h inner ih =>
    cases h with
    | primary => exact ih rfl
    | _ => cases hr
  | _ => cases hr

/-- **No primary or signed phrase is a reserved word.** -/
theorem Phrase.isReservedWord_print {r : Rank} (p : Phrase r) (hr : r.isChunk = true) :
    isReservedWord p.print = false := by
  induction p with
  | text q hq pieces =>
    refine isReservedWord_eq_false (c := q) (by simp [print]) ?_
    rcases isQuote_iff.1 hq with rfl | rfl <;> decide
  | int digits h =>
    obtain ⟨c, rest, rfl⟩ := List.exists_cons_of_ne_nil h.digits.1
    exact isReservedWord_eq_false (c := c) (by simp [print])
      (isAlpha_of_isDigit (h.digits.2 c (by simp)))
  | constant c => cases c with
    | yes capital => cases capital <;> decide
    | no capital => cases capital <;> decide
    | nothing capital => cases capital <;> decide
  | name n h => exact h.isReservedWord_eq_false
  | group inner _ => exact isReservedWord_eq_false (c := '(') (by simp [print]) (by decide)
  | attr subject n h ih => exact isReservedWord_eq_false (c := '.') (by simp [print]) (by decide)
  | item subject key ih _ => exact isReservedWord_eq_false (c := '[') (by simp [print]) (by decide)
  | sign negative operand ih =>
    cases negative
    · exact isReservedWord_eq_false (c := '+') (by simp [print]) (by decide)
    · exact isReservedWord_eq_false (c := '-') (by simp [print]) (by decide)
  | lift h inner ih =>
    cases h with
    | primary => exact ih rfl
    | _ => cases hr
  | _ => cases hr

theorem Filter.isReservedWord_print (f : Filter) : isReservedWord f.print = false := by
  cases ha : f.arguments with
  | none =>
    rw [print, argumentText, ha]
    simpa using isReservedWord_eq_false_of_not_mem f.name_not_keyword
  | some a =>
    rw [print, argumentText, ha]
    exact isReservedWord_eq_false (c := '(') (by simp) (by decide)

/-! ## 4. Words at top level -/

/-- The words that the phrases of a rank do not show. -/
def Rank.absentWords : Rank → List (List Char)
  | .primary | .signed | .operand | .chain _ => cuttingWords
  | .test | .negation => ["or".toList, "and".toList]
  | .conjunction => ["or".toList]
  | .disjunction => []

theorem Rank.mem_cuttingWords {r : Rank} {w : List Char} (h : w ∈ r.absentWords) :
    w ∈ cuttingWords := by
  cases r with
  | primary | signed | operand | chain => exact h
  | test | negation =>
    have : ∀ w ∈ Rank.test.absentWords, w ∈ cuttingWords := by decide
    exact this w h
  | conjunction =>
    have : ∀ w ∈ Rank.conjunction.absentWords, w ∈ cuttingWords := by decide
    exact this w h
  | disjunction => cases h

/-- Looser phrases may show more. -/
theorem Rank.Under.mem_absentWords {r r' : Rank} (h : r.Under r') {w : List Char}
    (hw : w ∈ r'.absentWords) : w ∈ r.absentWords := by
  cases h with
  | primary | signed | operand => exact hw
  | chain => exact Rank.mem_cuttingWords hw
  | test => exact hw
  | negation =>
    have : ∀ w ∈ Rank.conjunction.absentWords, w ∈ Rank.negation.absentWords := by decide
    exact this w hw
  | conjunction => cases hw

theorem Text.Skips.spaced {w left word right : List Char} (hl : Skips w left) (hw : Skips w word)
    (hr : Skips w right) : Skips w (spaced left word right) :=
  hl.join (hw.join hr)

/-- A chunk that is no reserved word is passed over. -/
theorem skips_chunk {w cs : List Char} (hw : w ∈ cuttingWords) (hne : cs ≠ [])
    (h : Balanced NotBlank cs) (hcs : isReservedWord cs = false) : Skips w cs := by
  refine h.skips (isWord_of_mem_cuttingWords hw) hne ?_
  rintro rfl
  simp [isReservedWord_of_mem_cuttingWords hw] at hcs

/-- So is a word that is not among those looked for. -/
theorem Rank.skips_word {r : Rank} {w cs : List Char} (hw : w ∈ r.absentWords)
    (hcs : IsWord cs) (hne : cs ∉ r.absentWords) : Skips w cs := by
  refine Balanced.skips (isWord_of_mem_cuttingWords (mem_cuttingWords hw)) ?_ hcs.1 ?_
  · exact (balanced_of_isIdentChar hcs.2).mono fun _ hc => hc.2
  · rintro rfl
    exact hne hw

/-- **A phrase shows only words that join phrases of its rank or of a tighter one.** -/
theorem Phrase.skips {r : Rank} (p : Phrase r) {w : List Char} (hw : w ∈ r.absentWords) :
    Skips w p.print := by
  have hchunk {r : Rank} (p : Phrase r) (hr : r.isChunk = true) (hw : w ∈ cuttingWords) :
      Skips w p.print :=
    skips_chunk hw p.tight.ne_nil (p.chunk hr) (p.isReservedWord_print hr)
  have hsymbol (op : BinOp) (hw : w ∈ cuttingWords) : Skips w op.symbol := by
    refine skips_chunk hw ?_ (op.balanced_symbol.mono fun _ hc => hc.2) ?_
    · cases op <;> decide
    · cases op <;> decide
  induction p with
  | text q hq pieces => exact hchunk (.text q hq pieces) rfl hw
  | int digits h => exact hchunk (.int digits h) rfl hw
  | constant c => exact hchunk (.constant c) rfl hw
  | name n h => exact hchunk (.name n h) rfl hw
  | group inner _ => exact hchunk (.group inner) rfl hw
  | attr subject n h _ => exact hchunk (.attr subject n h) rfl hw
  | item subject key _ _ => exact hchunk (.item subject key) rfl hw
  | sign negative operand _ => exact hchunk (.sign negative operand) rfl hw
  | filter operand f ih =>
    have hbar : Skips w ['|'] := skips_chunk hw (by decide) (.plain (by decide) (by decide) .nil)
      (by decide)
    have hf : Skips w f.print := skips_chunk hw f.tight_print.ne_nil
      (f.balanced_print.mono fun _ hc => hc.2) f.isReservedWord_print
    exact (ih hw).spaced hbar hf
  | arith left op _ right ihl ihr => exact (ihl hw).spaced (hsymbol op hw) (ihr hw)
  | compare left op _ right ihl ihr => exact (ihl hw).spaced (hsymbol op hw) (ihr hw)
  | member negated element container ihe ihc =>
    have hcut := Rank.mem_cuttingWords hw
    have hin : Skips w "in".toList := Rank.skips_word hw (by decide) (by decide)
    refine (ihe hcut).spaced ?_ (ihc hcut)
    cases negated with
    | false => exact hin
    | true => exact (Rank.skips_word hw (by decide) (by decide) : Skips w "not".toList).join hin
  | defined subject negated undefined ih =>
    have his : Skips w "is".toList := Rank.skips_word hw (by decide) (by decide)
    refine (ih (Rank.mem_cuttingWords hw)).spaced ?_ ?_
    · cases negated with
      | false => exact his
      | true => exact his.join (Rank.skips_word hw (by decide) (by decide) : Skips w "not".toList)
    · cases undefined <;> exact Rank.skips_word hw (by decide) (by decide)
  | not operand ih =>
    exact (Rank.skips_word hw (by decide) (by decide) : Skips w "not".toList).join (ih hw)
  | and left right ihl ihr =>
    have hr : w ∈ Rank.negation.absentWords := Rank.Under.negation.mem_absentWords hw
    exact (ihl hw).spaced (Rank.skips_word hw (by decide) (by decide)) (ihr hr)
  | or left right ihl ihr => cases hw
  | lift h inner ih => exact ih (h.mem_absentWords hw)

/-! ## 5. The first word -/

/-- A keyword at the start of a text is the first word of the text. -/
theorem afterKeyword?_eq_none {keyword cs : List Char} (hk : IsWord keyword)
    (h : cs.takeWhile isIdentChar ≠ keyword) : afterKeyword? keyword cs = none := by
  unfold afterKeyword?
  split
  · rename_i hp
    obtain ⟨rest, rfl⟩ := List.isPrefixOf_iff_prefix.1 hp
    dsimp only
    split
    · rename_i hnext
      have hend : WordEnd rest := by
        intro c hc
        have hc' : isBlank c = true ∨ c = '(' := by
          rw [List.drop_left] at hnext
          simpa [Option.mem_def.1 hc] using hnext
        rcases hc' with hb | rfl
        · exact isIdentChar_of_isBlank hb
        · decide
      exact absurd (takeWhile_append_of_wordEnd hk.2 hend).1 h
    · rfl
  · rfl

/-- **A chain does not start with the word `not`.** -/
theorem Phrase.takeWhile_print {r : Rank} (p : Phrase r) (hr : r.isChain = true)
    {rest : List Char} (hrest : WordEnd rest) :
    (p.print ++ rest).takeWhile isIdentChar ≠ "not".toList := by
  -- a phrase that is one word is no reserved word
  have hword {p : Phrase .primary} (h : ∀ c ∈ p.print, isIdentChar c = true) {rest : List Char}
      (hrest : WordEnd rest) : (p.print ++ rest).takeWhile isIdentChar ≠ "not".toList := by
    rw [(takeWhile_append_of_wordEnd h hrest).1]
    intro hnot
    have := p.isReservedWord_print rfl
    rw [hnot] at this
    exact absurd this (by decide)
  have hmark {c : Char} (h : isIdentChar c = false) (cs : List Char) :
      (c :: cs).takeWhile isIdentChar ≠ "not".toList := by
    rw [List.takeWhile_cons_of_neg (by simp [h])]
    decide
  induction p generalizing rest with
  | text q hq pieces => exact hmark (classes_of_isQuote hq).2.2.2.1 _
  | int digits h =>
    exact hword (p := .int digits h) (fun c hc => isIdentChar_of_isDigit (h.digits.2 c hc)) hrest
  | constant c =>
    exact hword (p := .constant c) (fun _ hc => isIdentChar_of_mem c.isIdentifier_print hc) hrest
  | name n h => exact hword (p := .name n h) (fun _ hc => isIdentChar_of_mem h.isIdentifier hc) hrest
  | group inner _ => exact hmark (by decide) _
  | attr subject n h ih =>
    simp only [print, List.append_assoc, List.cons_append]
    exact ih rfl (wordEnd_cons (by decide) _)
  | item subject key ih _ =>
    simp only [print, List.append_assoc, List.cons_append]
    exact ih rfl (wordEnd_cons (by decide) _)
  | sign negative operand _ => cases negative <;> exact hmark (by decide) _
  | filter operand f ih =>
    simp only [print, spaced, List.append_assoc, List.cons_append]
    exact ih rfl (wordEnd_cons (by decide) _)
  | arith left op _ right ih _ =>
    simp only [print, spaced, List.append_assoc, List.cons_append]
    exact ih rfl (wordEnd_cons (by decide) _)
  | compare left op _ right ih _ =>
    simp only [print, spaced, List.append_assoc, List.cons_append]
    exact ih rfl (wordEnd_cons (by decide) _)
  | lift h inner ih =>
    cases h with
    | primary | signed | operand => exact ih rfl hrest
    | _ => cases hr
  | _ => cases hr

theorem Phrase.afterKeyword?_print {r : Rank} (p : Phrase r) (hr : r.isChain = true)
    {rest : List Char} (hrest : WordEnd rest) :
    afterKeyword? "not".toList (p.print ++ rest) = none :=
  afterKeyword?_eq_none (by decide) (p.takeWhile_print hr hrest)

end TemplateCompiler
