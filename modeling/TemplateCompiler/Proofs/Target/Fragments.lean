import TemplateCompiler.Proofs.Target.Lexeme

/-! # String literals and comments of generated code

Where does a string literal of a source text start and end?  `fragments` takes a text apart into
literals, comments and single characters of code, by the rules of the target language and by nothing
else: it does not know what the code means.  A text in which a literal is not closed, or which has
a literal of a kind that is not read here (a character, a raw or a byte string), has no fragments.

What matters of a text that is put into a file is the same wherever the text stands (`Shows`): it
is taken apart as a whole, its literals stay on their line, all else is printable ASCII, and its
literals have certain values and roles.  The role of a literal is read off the code around it.
-/

namespace TemplateCompiler.Target

open Text

/-! ## 1. Fragments -/

/-- A part of a source text. -/
inductive Fragment where
  | code (c : Char)
  | comment (written : List Char)
  | literal (written value : List Char)
  deriving DecidableEq, Repr

namespace Fragment

/-- The part as it is written. -/
def written : Fragment → List Char
  | .code c => [c]
  | .comment cs => cs
  | .literal cs _ => cs

/-- The character that a quotation mark right after the part would follow. -/
def last? : Fragment → Option Char
  | .code c => some c
  | .comment _ => none
  | .literal .. => some '"'

end Fragment

/-- What was taken off the start of a text to get to `after`. -/
def upTo (after cs : List Char) : List Char := cs.take (cs.length - after.length)

/-- The first fragment of a text, after `before`, and the rest.  A quotation mark after a letter or
a hash belongs to another kind of literal. -/
def fragment? (before : Option Char) (c : Char) (rest : List Char) :
    Option (Fragment × List Char) :=
  if c = '"' then
    if before.any fun p => isIdentChar p || p == '#' then none
    else
      match textBody? .no rest with
      | some (value, after) =>
        if wordEnds after then some (.literal (upTo after (c :: rest)) value, after) else none
      | none => none
  else if c = '\'' then none
  else if ['/', '/'].isPrefixOf (c :: rest) then
    some (.comment (c :: rest.takeWhile (· != '\n')), rest.dropWhile (· != '\n'))
  else if ['/', '*'].isPrefixOf (c :: rest) then
    (afterComment? 0 (rest.drop 1)).map fun after => (.comment (upTo after (c :: rest)), after)
  else some (.code c, rest)

/-- The fragments of a text. -/
def fragments (before : Option Char) (cs : List Char) : Option (List Fragment) :=
  match cs with
  | [] => some []
  | c :: rest =>
    match fragment? before c rest with
    | none => none
    | some (f, after) =>
      if after.length ≤ rest.length then (fragments f.last? after).map (f :: ·) else none
termination_by cs.length
decreasing_by
  simp only [List.length_cons]
  omega

theorem fragments_nil (before : Option Char) : fragments before [] = some [] := by
  rw [fragments]

/-- One fragment, and then what is left. -/
theorem fragments_cons {before : Option Char} {c : Char} {rest after : List Char} {f : Fragment}
    (h : fragment? before c rest = some (f, after)) (hle : after.length ≤ rest.length) :
    fragments before (c :: rest) = (fragments f.last? after).map (f :: ·) := by
  rw [fragments, h]
  simp only [if_pos hle]

theorem upTo_append (cs after : List Char) : upTo after (cs ++ after) = cs := by
  simp [upTo]

/-! ## 2. One fragment at a time -/

/-- A character that starts neither a literal nor a comment, whatever follows. -/
def isBare (c : Char) : Bool := c != '"' && c != '\'' && c != '/'

/-- A character that starts nothing is a fragment of its own. -/
theorem fragments_bare {c : Char} (h : isBare c = true) (before : Option Char) (rest : List Char) :
    fragments before (c :: rest) = (fragments (some c) rest).map (.code c :: ·) := by
  simp only [isBare, Bool.and_eq_true, bne_iff_ne] at h
  have hfragment : fragment? before c rest = some (.code c, rest) := by
    simp [fragment?, h, List.isPrefixOf, Ne.symm h.2]
  exact fragments_cons hfragment (Nat.le_refl _)

/-- A slash before a blank. -/
theorem fragments_slash (before : Option Char) (rest : List Char) :
    fragments before ('/' :: ' ' :: rest) =
      (fragments (some '/') (' ' :: rest)).map (.code '/' :: ·) := by
  have hfragment : fragment? before '/' (' ' :: rest) = some (.code '/', ' ' :: rest) := rfl
  exact fragments_cons hfragment (Nat.le_refl _)

/-- **A quoted text is one literal, and its value is the text.** -/
theorem fragments_quote {p : Char} (hp : (isIdentChar p || p == '#') = false) (value : List Char)
    {rest : List Char} (hrest : WordEnd rest) :
    fragments (some p) (quote value ++ rest) =
      (fragments (some '"') rest).map (.literal (quote value) value :: ·) := by
  have hends : wordEnds rest = true := by
    cases rest with
    | nil => rfl
    | cons c rest => simp [wordEnds, hrest c (by simp)]
  have htext : quote value ++ rest = '"' :: (value.flatMap escapeChar ++ '"' :: rest) := by
    simp [quote]
  have hfragment : fragment? (some p) '"' (value.flatMap escapeChar ++ '"' :: rest) =
      some (.literal (quote value) value, rest) := by
    rw [fragment?, if_pos rfl, Option.any_some, hp, textBody?_flatMap]
    simp [hends, ← htext, upTo_append]
  rw [htext, fragments_cons hfragment (by simp; omega)]
  rfl

/-- A comment in marks. -/
theorem fragments_comment {cs : List Char} (h : ∀ c ∈ cs, c ≠ '*' ∧ c ≠ '/')
    (before : Option Char) (rest : List Char) :
    fragments before ('/' :: '*' :: (cs ++ '*' :: '/' :: rest)) =
      (fragments none rest).map (.comment ('/' :: '*' :: (cs ++ ['*', '/'])) :: ·) := by
  have htext : '/' :: '*' :: (cs ++ '*' :: '/' :: rest) =
      '/' :: '*' :: (cs ++ ['*', '/']) ++ rest := by simp
  have hupTo : upTo rest ('/' :: '*' :: (cs ++ '*' :: '/' :: rest)) =
      '/' :: '*' :: (cs ++ ['*', '/']) := by rw [htext, upTo_append]
  have hfragment : fragment? before '/' ('*' :: (cs ++ '*' :: '/' :: rest)) =
      some (.comment ('/' :: '*' :: (cs ++ ['*', '/'])), rest) := by
    simp [fragment?, List.isPrefixOf, afterComment?_append h, hupTo]
  exact fragments_cons hfragment (by simp; omega)

/-- A comment up to the end of its line. -/
theorem fragments_lineComment {cs : List Char} (h : '\n' ∉ cs) (before : Option Char)
    (rest : List Char) :
    fragments before ('/' :: '/' :: (cs ++ '\n' :: rest)) =
      (fragments none ('\n' :: rest)).map (.comment ('/' :: '/' :: cs) :: ·) := by
  have hall : ∀ c ∈ cs, (c != '\n') = true := by
    intro c hc
    rw [bne_iff_ne]
    rintro rfl
    exact h hc
  have hend : ∀ c ∈ ('\n' :: rest).head?, (c != '\n') = false := by simp
  obtain ⟨htake, hdrop⟩ := takeWhile_append_of_head hall hend
  have hfragment : fragment? before '/' ('/' :: (cs ++ '\n' :: rest)) =
      some (.comment ('/' :: '/' :: cs), '\n' :: rest) := by
    simp [fragment?, List.isPrefixOf, htake, hdrop]
  exact fragments_cons hfragment (by simp; omega)

/-! ## 3. Nothing is left out -/

theorem isSuffix_of_consValue {c : Char} {r : Option (List Char × List Char)}
    {value after cs : List Char} (h : consValue c r = some (value, after))
    (ih : ∀ value', r = some (value', after) → after <:+ cs) : after <:+ cs := by
  obtain ⟨⟨value', after'⟩, hr, heq⟩ := Option.map_eq_some_iff.1 h
  cases heq
  exact ih value' hr

/-- The body of a literal is taken from the front of the text. -/
theorem isSuffix_textBody? {esc : Escaping} {cs value after : List Char}
    (h : textBody? esc cs = some (value, after)) : after <:+ cs := by
  have hcons {c : Char} {rest : List Char} (h : after <:+ rest) : after <:+ c :: rest :=
    h.trans (List.suffix_cons c rest)
  fun_induction textBody? esc cs generalizing value with
  | case1 => cases h
  | case2 rest =>
    cases h
    exact List.suffix_cons _ _
  | case3 rest _ ih => exact hcons (ih h)
  | case4 => cases h
  | case5 c rest _ _ _ ih => exact hcons (isSuffix_of_consValue h fun _ => ih)
  | case6 rest ih => exact hcons (ih h)
  | case7 c rest _ d _ ih => exact hcons (isSuffix_of_consValue h fun _ => ih)
  | case8 => cases h
  | case9 rest ih => exact hcons (ih h)
  | case10 => cases h
  | case11 value' digits rest _ ih => exact hcons (isSuffix_of_consValue h fun _ => ih)
  | case12 => cases h
  | case13 value' digits c rest _ d _ ih => exact hcons (ih h)
  | case14 => cases h

/-- So is a comment, with those that are nested in it. -/
theorem isSuffix_afterComment? {depth : Nat} {cs after : List Char}
    (h : afterComment? depth cs = some after) : after <:+ cs := by
  fun_induction afterComment? depth cs with
  | case1 rest =>
    cases h
    exact ⟨['*', '/'], rfl⟩
  | case2 depth rest ih => exact (ih h).trans ⟨['*', '/'], rfl⟩
  | case3 depth rest ih => exact (ih h).trans ⟨['/', '*'], rfl⟩
  | case4 depth c rest _ _ _ ih => exact (ih h).trans (List.suffix_cons c rest)
  | case5 => cases h

theorem upTo_append_of_isSuffix {after cs : List Char} (h : after <:+ cs) :
    upTo after cs ++ after = cs := by
  obtain ⟨front, rfl⟩ := h
  rw [upTo_append]

/-- A fragment is what was taken, as it was written. -/
theorem written_append_of_fragment? {before : Option Char} {c : Char} {rest after : List Char}
    {f : Fragment} (h : fragment? before c rest = some (f, after)) :
    f.written ++ after = c :: rest := by
  unfold fragment? at h
  split at h
  · split at h
    · cases h
    split at h
    · rename_i hbody
      split at h
      · cases h
        exact upTo_append_of_isSuffix ((isSuffix_textBody? hbody).trans (List.suffix_cons c rest))
      · cases h
    · cases h
  split at h
  · cases h
  split at h
  · cases h
    simp [Fragment.written]
  split at h
  · obtain ⟨after', hafter, heq⟩ := Option.map_eq_some_iff.1 h
    cases heq
    refine upTo_append_of_isSuffix ((isSuffix_afterComment? hafter).trans ?_)
    exact (List.drop_suffix 1 rest).trans (List.suffix_cons c rest)
  · cases h
    rfl

/-- **The fragments of a text are the whole text.** -/
theorem written_fragments {before : Option Char} {cs : List Char} {fs : List Fragment}
    (h : fragments before cs = some fs) : fs.flatMap Fragment.written = cs := by
  fun_induction fragments before cs generalizing fs with
  | case1 =>
    cases h
    rfl
  | case2 => cases h
  | case3 before c rest f after hfragment hle ih =>
    obtain ⟨gs, hgs, rfl⟩ := Option.map_eq_some_iff.1 h
    rw [List.flatMap_cons, ih hgs, written_append_of_fragment? hfragment]
  | case4 => cases h

/-! ## 4. What literals are for -/

/-- What a literal of generated code is for. -/
inductive Role where
  /-- A text of the template, which is written out. -/
  | text
  /-- A constant of an expression. -/
  | constant
  /-- A name that is assigned. -/
  | assigned
  /-- A name whose assignment is taken away. -/
  | removed
  /-- A name that is looked up. -/
  | variable
  | attribute
  | other
  deriving DecidableEq, Repr

/-- The code right before a literal and the character after it, by the role of the literal. -/
def roleTexts : List (String × Char × Role) :=
  [("__out.push_str(", ')', .text), ("Value::from(", ')', .constant),
   ("__locals.insert(", '.', .assigned), ("__locals.remove(", ')', .removed),
   ("get_var(&__locals, ", ',', .variable), (", ", ')', .attribute)]

/-- The role of a literal, by the code before it, which is given backwards, and what follows. -/
def roleOf (before : List Char) (after : Option Char) : Role :=
  match roleTexts.find? fun r => after == some r.2.1 && r.1.toList.reverse.isPrefixOf before with
  | some r => r.2.2
  | none => .other

/-- The character that the code goes on with. -/
def nextChar? : List Fragment → Option Char
  | .code c :: _ => some c
  | _ => none

/-- The literals of a text with their roles, in order. -/
def literals (before : List Char) : List Fragment → List (Role × List Char)
  | [] => []
  | .code c :: rest => literals (c :: before) rest
  | .comment _ :: rest => literals [] rest
  | .literal _ value :: rest => (roleOf before (nextChar? rest), value) :: literals [] rest

/-- Each role is decided by the code in front of the literal and the character behind it, whatever
came before. -/
theorem roleOf_of_mem : ∀ r ∈ roleTexts, ∀ before,
    roleOf (r.1.toList.reverse ++ before) (some r.2.1) = r.2.2 := by
  intro r hr before
  simp only [roleTexts, List.mem_cons, List.not_mem_nil, or_false] at hr
  rcases hr with rfl | rfl | rfl | rfl | rfl | rfl <;> rfl

/-- Code holds no literals. -/
theorem literals_code (before cs : List Char) (rest : List Fragment) :
    literals before (cs.map .code ++ rest) = literals (cs.reverse ++ before) rest := by
  induction cs generalizing before with
  | nil => rfl
  | cons c cs ih => simp [literals, ih]

/-! ## 5. Texts that are taken apart wherever they stand -/

/-- A character of ASCII that can be seen, or a blank. -/
def isPrintable (c : Char) : Bool := 0x20 ≤ c.toNat && c.toNat ≤ 0x7E

/-- What may stand on a line: literals that do not break the line, and printable ASCII. -/
def Fragment.Orderly : Fragment → Prop
  | .code c => isPrintable c = true
  | .comment cs => ∀ c ∈ cs, isPrintable c = true
  | .literal cs _ => '\n' ∉ cs

/-- A text that has these fragments wherever it stands. -/
def Reads (cs : List Char) (fs : List Fragment) : Prop :=
  ∀ before rest, ∃ last, fragments before (cs ++ rest) = (fragments last rest).map (fs ++ ·)

/-- A text that has these fragments and may stand on a line. -/
structure Taken (cs : List Char) (fs : List Fragment) : Prop where
  reads : Reads cs fs
  orderly : ∀ f ∈ fs, f.Orderly

/-- Fragments with these literals, whatever stands around them. -/
def Holds (fs : List Fragment) (ls : List (Role × List Char)) : Prop :=
  ∀ before rest, ∃ before', literals before (fs ++ rest) = ls ++ literals before' rest

/-- A text with these literals. -/
def Shows (cs : List Char) (ls : List (Role × List Char)) : Prop :=
  ∃ fs, Taken cs fs ∧ Holds fs ls

/-- A printable character that starts neither a literal nor a comment. -/
def isPlainChar (c : Char) : Bool := isPrintable c && isBare c

section
variable {cs ds : List Char} {fs gs : List Fragment} {ls ms : List (Role × List Char)}

theorem reads_nil : Reads [] [] := by
  intro before rest
  refine ⟨before, ?_⟩
  cases h : fragments before rest <;> simp [h]

/-- Texts that are taken apart wherever they stand are taken apart one after the other. -/
theorem Reads.append (h : Reads cs fs) (h' : Reads ds gs) : Reads (cs ++ ds) (fs ++ gs) := by
  intro before rest
  obtain ⟨mid, hmid⟩ := h before (ds ++ rest)
  obtain ⟨last, hlast⟩ := h' mid rest
  refine ⟨last, ?_⟩
  rw [List.append_assoc, hmid, hlast]
  cases fragments last rest <;> simp

theorem Reads.fragments_eq (h : Reads cs fs) : fragments none cs = some fs := by
  obtain ⟨last, hlast⟩ := h none []
  rwa [List.append_nil, fragments_nil, Option.map_some, List.append_nil] at hlast

theorem Taken.append (h : Taken cs fs) (h' : Taken ds gs) : Taken (cs ++ ds) (fs ++ gs) := by
  refine ⟨h.reads.append h'.reads, fun f hf => ?_⟩
  rcases List.mem_append.1 hf with hf | hf
  · exact h.orderly f hf
  · exact h'.orderly f hf

/-- The fragments of a text are the text, so none of its characters breaks the line. -/
theorem Taken.not_mem_newline (h : Taken cs fs) : '\n' ∉ cs := by
  rw [← written_fragments h.reads.fragments_eq, List.mem_flatMap]
  rintro ⟨f, hf, hmem⟩
  have horderly := h.orderly f hf
  cases f with
  | code c =>
    obtain rfl : '\n' = c := by simpa [Fragment.written] using hmem
    have hprintable : isPrintable '\n' = true := horderly
    exact absurd hprintable (by decide)
  | comment w => exact absurd (horderly '\n' hmem) (by decide)
  | literal w value => exact horderly hmem

/-- Their literals keep their order. -/
theorem Holds.append (h : Holds fs ls) (h' : Holds gs ms) : Holds (fs ++ gs) (ls ++ ms) := by
  intro before rest
  obtain ⟨mid, hmid⟩ := h before (gs ++ rest)
  obtain ⟨last, hlast⟩ := h' mid rest
  exact ⟨last, by rw [List.append_assoc, hmid, hlast, List.append_assoc]⟩

theorem Holds.literals_eq (h : Holds fs ls) : literals [] fs = ls := by
  obtain ⟨before, hbefore⟩ := h [] []
  simpa [literals] using hbefore

/-- **Literals of code that is put together are those of its parts, in order.** -/
theorem Shows.append (h : Shows cs ls) (h' : Shows ds ms) : Shows (cs ++ ds) (ls ++ ms) := by
  obtain ⟨fs, htaken, hholds⟩ := h
  obtain ⟨gs, htaken', hholds'⟩ := h'
  exact ⟨fs ++ gs, htaken.append htaken', hholds.append hholds'⟩

/-- Plain code, read from after any character. -/
theorem fragments_plain (hcs : cs.all isPlainChar = true) (before : Option Char)
    (rest : List Char) :
    fragments before (cs ++ rest) =
      (fragments (cs.getLast?.or before) rest).map (cs.map .code ++ ·) := by
  induction cs generalizing before with
  | nil => cases h : fragments before rest <;> simp [h]
  | cons c cs ih =>
    simp only [List.all_cons, Bool.and_eq_true] at hcs
    have hbare : isBare c = true := by
      have := hcs.1
      simp only [isPlainChar, Bool.and_eq_true] at this
      exact this.2
    rw [List.cons_append, fragments_bare hbare, ih hcs.2]
    have hlast : (c :: cs).getLast?.or before = cs.getLast?.or (some c) := by
      rw [List.getLast?_cons]
      cases cs.getLast? <;> rfl
    rw [hlast]
    cases fragments (cs.getLast?.or (some c)) rest <;> rfl

/-- Plain code is taken apart into its characters. -/
theorem taken_plain (hcs : cs.all isPlainChar = true) : Taken cs (cs.map .code) := by
  refine ⟨fun before rest => ⟨_, fragments_plain hcs before rest⟩, fun f hf => ?_⟩
  obtain ⟨c, hc, rfl⟩ := List.mem_map.1 hf
  have hplain := List.all_eq_true.1 hcs c hc
  simp only [isPlainChar, Bool.and_eq_true] at hplain
  exact hplain.1

theorem holds_code (cs : List Char) : Holds (cs.map .code) [] :=
  fun before rest => ⟨cs.reverse ++ before, literals_code before cs rest⟩

theorem shows_plain (hcs : cs.all isPlainChar = true) : Shows cs [] :=
  ⟨_, taken_plain hcs, holds_code cs⟩

end

/-! ## 6. Literals -/

theorem exists_digit_of_mem_toDigits {n : Nat} {c : Char} (h : c ∈ Nat.toDigits 16 n) :
    ∃ d < 16, c = Nat.digitChar d := by
  induction n using Nat.strongRecOn with
  | _ n ih =>
    by_cases hn : n < 16
    · rw [Nat.toDigits_of_lt_base hn, List.mem_singleton] at h
      exact ⟨n, hn, h⟩
    · rw [Nat.toDigits_of_base_le (by decide) (by omega), List.mem_append, List.mem_singleton] at h
      rcases h with h | h
      · exact ih (n / 16) (by omega) h
      · exact ⟨n % 16, Nat.mod_lt _ (by decide), h⟩

/-- A line break is escaped. -/
theorem newline_not_mem_escapeChar (c : Char) : '\n' ∉ escapeChar c := by
  unfold escapeChar
  split
  · decide
  split
  · decide
  split
  · decide
  split
  · decide
  split
  · decide
  split
  · decide
  split
  · have hdigits : ∀ d < 16, '\n' ≠ Nat.digitChar d := by decide
    simp only [codeEscape, List.mem_append, List.mem_cons, List.not_mem_nil, or_false]
    rintro ((h | h) | h)
    · exact absurd h (by decide)
    · obtain ⟨d, hd, heq⟩ := exists_digit_of_mem_toDigits h
      exact hdigits d hd heq
    · exact absurd h (by decide)
  · rename_i hn _
    simpa using Ne.symm hn

/-- **A literal does not break the line.** -/
theorem newline_not_mem_quote (value : List Char) : '\n' ∉ quote value := by
  simp only [quote, List.cons_append, List.mem_cons, List.mem_append, List.mem_flatMap]
  rintro (h | ⟨c, -, h⟩ | h)
  · exact absurd h (by decide)
  · exact newline_not_mem_escapeChar c h
  · exact absurd h (by simp)

/-- Whether a text is plain code after which a quotation mark opens a literal. -/
def opensLiteral (cs : List Char) : Bool :=
  cs.all isPlainChar && cs.getLast?.any fun p => !(isIdentChar p || p == '#')

/-- Whether a text is plain code that may follow a literal. -/
def followsLiteral (cs : List Char) : Bool :=
  cs.all isPlainChar && cs.head?.any fun q => !isIdentChar q

section
variable {cs front after value : List Char} {ls : List (Role × List Char)}

/-- The fragments of a literal with the code around it. -/
def literalFragments (front value after : List Char) : List Fragment :=
  front.map .code ++ .literal (quote value) value :: after.map .code

/-- A literal is one fragment if the code around it lets it begin and end. -/
theorem taken_literal (hfront : opensLiteral front = true) (hafter : followsLiteral after = true)
    (value : List Char) :
    Taken (front ++ quote value ++ after) (literalFragments front value after) := by
  simp only [opensLiteral, Bool.and_eq_true, Option.any_eq_true, Bool.not_eq_true'] at hfront
  simp only [followsLiteral, Bool.and_eq_true, Option.any_eq_true, Bool.not_eq_true'] at hafter
  obtain ⟨hfront, p, hp, hp'⟩ := hfront
  obtain ⟨hafter, q, hq, hq'⟩ := hafter
  have hend (rest : List Char) : WordEnd (after ++ rest) := by
    intro c hc
    cases after with
    | nil => cases hq
    | cons d after =>
      cases hq
      cases hc
      exact hq'
  refine ⟨fun before rest => ⟨after.getLast?.or (some '"'), ?_⟩, fun f hf => ?_⟩
  -- the last character of `front` decides that the quotation mark opens a plain literal
  · have hlast : front.getLast?.or before = some p := by rw [hp]; rfl
    rw [List.append_assoc, List.append_assoc, fragments_plain hfront, hlast,
      fragments_quote hp' value (hend rest), fragments_plain hafter]
    cases fragments (after.getLast?.or (some '"')) rest <;> simp [literalFragments]
  · rcases List.mem_append.1 hf with hf | hf
    · exact (taken_plain hfront).orderly f hf
    · rcases List.mem_cons.1 hf with rfl | hf
      · exact newline_not_mem_quote value
      · exact (taken_plain hafter).orderly f hf

/-- **A literal in code that decides its role.** -/
theorem shows_literal (front after : List Char) {role : Role}
    (hfront : opensLiteral front = true) (hafter : followsLiteral after = true)
    (hrole : ∀ before, roleOf (front.reverse ++ before) after.head? = role) (value : List Char) :
    Shows (front ++ quote value ++ after) [(role, value)] := by
  refine ⟨_, taken_literal hfront hafter value, fun before rest => ⟨after.reverse, ?_⟩⟩
  have hnext : nextChar? (after.map .code ++ rest) = after.head? := by
    cases after with
    | nil => exact absurd hafter (by decide)
    | cons c after => rfl
  rw [literalFragments, List.append_assoc, literals_code, List.cons_append, literals, hnext, hrole,
    literals_code, List.append_nil]
  rfl

end

/-! ## 7. Comments and slashes -/

/-- A comment in marks is one fragment. -/
theorem taken_comment {note : List Char} (hnote : ∀ c ∈ note, c ≠ '*' ∧ c ≠ '/')
    (hprintable : ∀ c ∈ note, isPrintable c = true) :
    Taken ('/' :: '*' :: (note ++ ['*', '/'])) [.comment ('/' :: '*' :: (note ++ ['*', '/']))] := by
  refine ⟨fun before rest => ⟨none, ?_⟩, ?_⟩
  · have h := fragments_comment hnote before rest
    simpa using h
  · intro f hf
    obtain rfl := List.mem_singleton.1 hf
    intro c hc
    simp only [List.mem_cons, List.mem_append, List.not_mem_nil, or_false] at hc
    rcases hc with rfl | rfl | hc | rfl | rfl
    · rfl
    · rfl
    · exact hprintable c hc
    · rfl
    · rfl

theorem shows_comment {note : List Char} (hnote : ∀ c ∈ note, c ≠ '*' ∧ c ≠ '/')
    (hprintable : ∀ c ∈ note, isPrintable c = true) :
    Shows ('/' :: '*' :: (note ++ ['*', '/'])) [] :=
  ⟨_, taken_comment hnote hprintable, fun _ _ => ⟨[], rfl⟩⟩

/-- A slash between blanks is code. -/
theorem taken_slash : Taken [' ', '/', ' '] ([' ', '/', ' '].map .code) := by
  refine ⟨fun before rest => ⟨some ' ', ?_⟩, ?_⟩
  · have hspace (before : Option Char) (rest : List Char) :=
      fragments_bare (c := ' ') rfl before rest
    rw [List.cons_append, hspace, List.cons_append, List.cons_append, fragments_slash, hspace,
      List.nil_append]
    cases fragments (some ' ') rest <;> rfl
  · intro f hf
    simp only [List.map_cons, List.map_nil, List.mem_cons, List.not_mem_nil, or_false] at hf
    rcases hf with rfl | rfl | rfl <;> rfl

theorem shows_slash : Shows [' ', '/', ' '] [] := ⟨_, taken_slash, holds_code [' ', '/', ' ']⟩

end TemplateCompiler.Target
