import TemplateCompiler.Proofs.Text.Balanced
import TemplateCompiler.Value.Print

/-! # Quoted texts

A text inside a list or map stands between two quotation marks of one kind.  The rules are those of
the language whose literals are imitated, as far as they are used: four characters have an escape of
their own, the mark is escaped too, and every other character stands for itself (`CharText`).  Which
of the two marks is taken is not part of the rules.

* `quotedText_quoted`: a quoted text is written by the rules;
* `textBody?_of_bodyText` and `bodyText_of_textBody?`: a reader, written beside the rules, takes
  just these texts.
-/

namespace TemplateCompiler.Value

open Text

/-! ## 1. The rules -/

/-- The characters with an escape of their own: what stands after the backslash, and the character
itself. -/
def namedEscapes : List (Char × Char) := [('\\', '\\'), ('n', '\n'), ('r', '\r'), ('t', '\t')]

/-- A character and how it is written between two marks `q`. -/
inductive CharText (q : Char) : Char → List Char → Prop
  | plain {c : Char} (hmark : c ≠ q) (hnamed : c ∉ namedEscapes.map Prod.snd) : CharText q c [c]
  | escape {e c : Char} (h : (e, c) ∈ namedEscapes) : CharText q c ['\\', e]
  | mark : CharText q q ['\\', q]

/-- A text and what stands for it between two marks `q`. -/
inductive BodyText (q : Char) : List Char → List Char → Prop
  | nil : BodyText q [] []
  | cons {c : Char} {s cs ds : List Char} (hc : CharText q c cs) (hs : BodyText q s ds) :
      BodyText q (c :: s) (cs ++ ds)

/-- A text and its literal, between marks of either kind. -/
inductive QuotedText (s : List Char) : List Char → Prop
  | mk {q : Char} {body : List Char} (hq : isQuote q = true) (h : BodyText q s body) :
      QuotedText s (q :: (body ++ [q]))

theorem isQuote_markFor (s : List Char) : isQuote (markFor s) = true := by
  unfold markFor
  split <;> rfl

/-- A quotation mark has no escape of its own and is none. -/
theorem ne_of_mem_namedEscapes {q : Char} (hq : isQuote q = true) {p : Char × Char}
    (h : p ∈ namedEscapes) : p.1 ≠ q ∧ p.2 ≠ q := by
  have hall : ∀ p ∈ namedEscapes, isQuote p.1 = false ∧ isQuote p.2 = false :=
    forall_mem_of_all (by decide)
  obtain ⟨hletter, hchar⟩ := hall p h
  constructor
  · rintro rfl
    simp [hq] at hletter
  · rintro rfl
    simp [hq] at hchar

/-- **A character is escaped by the rules.** -/
theorem charText_escapeIn (q c : Char) : CharText q c (escapeIn q c) := by
  have hnamed {e d : Char} (h : (e, d) ∈ namedEscapes) (hc : c = d) : CharText q c ['\\', e] :=
    hc ▸ .escape h
  unfold escapeIn
  split
  · rename_i hc
    exact hnamed (by decide) hc
  split
  · rename_i hc
    exact hnamed (by decide) hc
  split
  · rename_i hc
    exact hnamed (by decide) hc
  split
  · rename_i hc
    exact hnamed (by decide) hc
  split
  · rename_i hc
    exact hc ▸ .mark
  · rename_i hslash hfeed hreturn htab hmark
    exact .plain hmark (by simp [namedEscapes, hslash, hfeed, hreturn, htab])

theorem bodyText_flatMap (q : Char) (s : List Char) :
    BodyText q s (s.flatMap (escapeIn q)) := by
  induction s with
  | nil => exact .nil
  | cons c s ih => exact .cons (charText_escapeIn q c) ih

/-- **A quoted text is the literal of the text.** -/
theorem quotedText_quoted (s : List Char) : QuotedText s (quoted s) :=
  .mk (isQuote_markFor s) (bodyText_flatMap (markFor s) s)

/-! ## 2. Reading a text -/

/-- The character that a backslash and `e` stand for between two marks `q`. -/
def unescape? (q e : Char) : Option Char :=
  if e = q then some q else (namedEscapes.find? fun p => p.1 == e).map Prod.snd

/-- A text, from after its first mark `q`, and what follows its second one. -/
def textBody? (q : Char) : List Char → Option (List Char × List Char)
  | [] => none
  | c :: rest =>
    if c = q then some ([], rest)
    else if c = '\\' then
      match rest with
      | [] => none
      | e :: rest => do
        let d ← unescape? q e
        let (s, after) ← textBody? q rest
        return (d :: s, after)
    else if c ∈ namedEscapes.map Prod.snd then none
    else do
      let (s, after) ← textBody? q rest
      return (c :: s, after)

theorem unescape?_of_mem {q : Char} (hq : isQuote q = true) {e c : Char}
    (h : (e, c) ∈ namedEscapes) : unescape? q e = some c := by
  have hall : ∀ p ∈ namedEscapes,
      (namedEscapes.find? fun r => r.1 == p.1).map Prod.snd = some p.2 :=
    forall_mem_of_all (by decide)
  rw [unescape?, if_neg (ne_of_mem_namedEscapes hq h).1, hall _ h]

theorem charText_of_unescape? {q e c : Char} (h : unescape? q e = some c) :
    CharText q c ['\\', e] := by
  unfold unescape? at h
  split at h
  · rename_i he
    cases h
    exact he ▸ .mark
  · obtain ⟨⟨letter, d⟩, hfind, rfl⟩ := Option.map_eq_some_iff.1 h
    have hletter := List.find?_some hfind
    obtain rfl : letter = e := eq_of_beq hletter
    exact .escape (List.mem_of_find?_eq_some hfind)

/-- One character is read, and then the others. -/
theorem textBody?_of_charText {q : Char} (hq : isQuote q = true) {c : Char} {cs : List Char}
    (h : CharText q c cs) (rest : List Char) :
    textBody? q (cs ++ rest) = (textBody? q rest).map fun (s, after) => (c :: s, after) := by
  have hslash : '\\' ≠ q := by
    rintro rfl
    exact absurd hq (by decide)
  have hescape {e d : Char} (h : unescape? q e = some d) : textBody? q ('\\' :: e :: rest) =
      (textBody? q rest).map fun (s, after) => (d :: s, after) := by
    rw [textBody?, if_neg hslash, if_pos rfl, h]
    cases textBody? q rest <;> rfl
  cases h with
  | plain hmark hnamed =>
    have hc : c ≠ '\\' := by
      rintro rfl
      exact hnamed (by decide)
    rw [List.singleton_append, textBody?.eq_def]
    dsimp only
    rw [if_neg hmark, if_neg hc, if_neg hnamed]
    cases textBody? q rest <;> rfl
  | escape h => exact hescape (unescape?_of_mem hq h)
  | mark => exact hescape (if_pos rfl)

/-- **A text is read to its second mark.** -/
theorem textBody?_of_bodyText {q : Char} (hq : isQuote q = true) {s body : List Char}
    (h : BodyText q s body) (rest : List Char) :
    textBody? q (body ++ q :: rest) = some (s, rest) := by
  induction h with
  | nil =>
    rw [List.nil_append, textBody?.eq_def]
    exact if_pos rfl
  | cons hc _ ih =>
    rw [List.append_assoc, textBody?_of_charText hq hc, ih]
    rfl

/-- Whatever is read is written by the rules. -/
theorem bodyText_of_textBody? {q : Char} {cs s rest : List Char}
    (h : textBody? q cs = some (s, rest)) : ∃ body, cs = body ++ q :: rest ∧ BodyText q s body := by
  fun_induction textBody? q cs generalizing s with
  | case1 => cases h
  | case2 after =>
    cases h
    exact ⟨[], rfl, .nil⟩
  | case3 => cases h
  | case4 e after hmark ih =>
    obtain ⟨d, hd, h⟩ := Option.bind_eq_some_iff.1 h
    obtain ⟨⟨more, tail⟩, hmore, h⟩ := Option.bind_eq_some_iff.1 h
    cases h
    obtain ⟨body, rfl, hbody⟩ := ih hmore
    exact ⟨'\\' :: e :: body, rfl, .cons (charText_of_unescape? hd) hbody⟩
  | case5 => cases h
  | case6 c after hmark hslash hnamed ih =>
    obtain ⟨⟨more, tail⟩, hmore, h⟩ := Option.bind_eq_some_iff.1 h
    cases h
    obtain ⟨body, rfl, hbody⟩ := ih hmore
    exact ⟨c :: body, rfl, .cons (.plain hmark hnamed) hbody⟩

end TemplateCompiler.Value
