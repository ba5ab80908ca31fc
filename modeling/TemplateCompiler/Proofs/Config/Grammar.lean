import TemplateCompiler.Config.Json
import TemplateCompiler.Proofs.Text.Digits

/-! # The grammar of JSON

Which texts are JSON, rule by rule, each with the tree that it gives (`Spells`, `IsDocument`).  The
rules name no reader: tables say what an escape and a hexadecimal digit stand for, and blanks are
where they are allowed.

Main statement: the reader takes every text of the grammar and gives its tree
(`document?_of_isDocument`).  So a text has one tree at most (`IsDocument.unique`).

A number has no end of its own: the reader stops at the first character that does not go on with it.
What follows a value is therefore part of each statement (`Ends`).
-/

namespace TemplateCompiler.Config

open Text

/-! ## 1. Strings -/

/-- What a backslash and a letter or mark stand for. -/
def escapes : List (Char × Char) :=
  [('"', '"'), ('\\', '\\'), ('/', '/'), ('b', '\x08'), ('f', '\x0c'), ('n', '\n'), ('r', '\r'),
   ('t', '\t')]

/-- The values of the hexadecimal digits. -/
def hexDigits : List (Char × Nat) :=
  [('0', 0), ('1', 1), ('2', 2), ('3', 3), ('4', 4), ('5', 5), ('6', 6), ('7', 7), ('8', 8),
   ('9', 9), ('a', 10), ('b', 11), ('c', 12), ('d', 13), ('e', 14), ('f', 15), ('A', 10), ('B', 11),
   ('C', 12), ('D', 13), ('E', 14), ('F', 15)]

/-- A piece of a string and its text. -/
inductive PieceText : Piece → List Char → Prop
  | char {c : Char} (hcontrol : 0x20 ≤ c.toNat) (hmark : c ≠ '"') (hslash : c ≠ '\\') :
      PieceText (.char c) [c]
  | escape {e c : Char} (h : (e, c) ∈ escapes) : PieceText (.char c) ['\\', e]
  | unit {a b c d : Char} {i j k l : Nat} (ha : (a, i) ∈ hexDigits) (hb : (b, j) ∈ hexDigits)
      (hc : (c, k) ∈ hexDigits) (hd : (d, l) ∈ hexDigits) :
      PieceText (.unit (4096 * i + 256 * j + 16 * k + l)) ['\\', 'u', a, b, c, d]

/-- The pieces of a string and their text, without the quotation marks. -/
inductive PiecesText : List Piece → List Char → Prop
  | nil : PiecesText [] []
  | cons {p : Piece} {ps : List Piece} {cs ds : List Char} (hp : PieceText p cs)
      (hps : PiecesText ps ds) : PiecesText (p :: ps) (cs ++ ds)

theorem hexDigit?_of_mem {c : Char} {i : Nat} (h : (c, i) ∈ hexDigits) : hexDigit? c = some i := by
  have hall : hexDigits.all (fun e => hexDigit? e.1 == some e.2) = true := by decide
  simpa using List.all_eq_true.1 hall _ h

theorem shortEscape?_of_mem {e c : Char} (h : (e, c) ∈ escapes) :
    shortEscape? e = some c ∧ e ≠ 'u' := by
  have hall : escapes.all (fun p => shortEscape? p.1 == some p.2 && p.1 != 'u') = true := by decide
  simpa using List.all_eq_true.1 hall _ h

/-- One piece is read, and then the others. -/
theorem pieces_of_pieceText {p : Piece} {cs : List Char} (h : PieceText p cs) (rest : List Char) :
    pieces (cs ++ rest) = (pieces rest).map fun (ps, after) => (p :: ps, after) := by
  cases h with
  | char hcontrol hmark hslash =>
    rename_i c
    have hplain : ¬(c = '\\' ∨ c.toNat < 0x20) := by
      rintro (h | h)
      · exact hslash h
      · omega
    rw [List.singleton_append, pieces]
    · rw [if_neg hplain]
      cases pieces rest <;> rfl
    · exact hmark
    · rintro a b c d rest rfl
      exact absurd rfl hslash
    · rintro e rest rfl
      exact absurd rfl hslash
  | @escape e c h =>
    obtain ⟨hshort, hu⟩ := shortEscape?_of_mem h
    rw [List.cons_append, List.singleton_append, pieces]
    · rw [hshort]
      cases pieces rest <;> rfl
    · rintro a b c d rest rfl
      exact absurd rfl hu
  | unit ha hb hc hd =>
    simp only [List.cons_append, List.nil_append]
    rw [pieces, hexUnit?, hexDigit?_of_mem ha, hexDigit?_of_mem hb, hexDigit?_of_mem hc,
      hexDigit?_of_mem hd]
    cases pieces rest <;> rfl

/-- **A string is read to its end.** -/
theorem pieces_of_piecesText {ps : List Piece} {cs : List Char} (h : PiecesText ps cs)
    (rest : List Char) : pieces (cs ++ '"' :: rest) = some (ps, rest) := by
  induction h with
  | nil => rfl
  | cons hp _ ih =>
    rw [List.append_assoc, pieces_of_pieceText hp, ih]
    rfl

/-- The text that pieces denote.  A unit is the code of a character, and two units that are a pair
of surrogates are one character.  No rule has a surrogate without its partner. -/
inductive Denotes : List Piece → List Char → Prop
  | nil : Denotes [] []
  | char (c : Char) {ps : List Piece} {s : List Char} (h : Denotes ps s) :
      Denotes (.char c :: ps) (c :: s)
  | unit (c : Char) {ps : List Piece} {s : List Char} (h : Denotes ps s) :
      Denotes (.unit c.toNat :: ps) (c :: s)
  | pair {high low : Nat} {c : Char} (hhigh : 0xD800 ≤ high ∧ high < 0xDC00)
      (hlow : 0xDC00 ≤ low ∧ low < 0xE000)
      (hc : c.toNat = 0x10000 + (high - 0xD800) * 0x400 + (low - 0xDC00))
      {ps : List Piece} {s : List Char} (h : Denotes ps s) :
      Denotes (.unit high :: .unit low :: ps) (c :: s)

/-- A unit that is no surrogate is a character of its own. -/
theorem decode?_unit {code : Nat} (h : code < 0xD800 ∨ 0xE000 ≤ code) (ps : List Piece) :
    decode? (.unit code :: ps) = (decode? ps).map (Char.ofNat code :: ·) := by
  have hlow : ¬(0xD800 ≤ code ∧ code < 0xDC00) := by omega
  have hhigh : ¬(0xDC00 ≤ code ∧ code < 0xE000) := by omega
  have hsurrogate : ¬(0xD800 ≤ code ∧ code < 0xE000) := by omega
  cases ps with
  | nil => simp [decode?, hsurrogate]
  | cons p ps =>
    cases p with
    | char c =>
      simp only [decode?, if_neg hsurrogate]
      cases decode? ps <;> rfl
    | unit low =>
      rw [decode?, if_neg hlow, if_neg hhigh]
      cases decode? (.unit low :: ps) <;> rfl

/-- **The pieces of a text are decoded to it.** -/
theorem decode?_of_denotes {ps : List Piece} {s : List Char} (h : Denotes ps s) :
    decode? ps = some s := by
  induction h with
  | nil => rfl
  | char c _ ih =>
    rw [decode?, ih]
    rfl
  | unit c _ ih =>
    have hvalid : c.toNat < 0xD800 ∨ 0xE000 ≤ c.toNat := by
      have hc : c.toNat < 0xD800 ∨ 0xDFFF < c.toNat ∧ c.toNat < 0x110000 := c.valid
      omega
    rw [decode?_unit hvalid, ih, Char.ofNat_toNat]
    rfl
  | pair hhigh hlow hc _ ih =>
    rw [decode?, if_pos hhigh, if_pos hlow, ih, ← hc, Char.ofNat_toNat]
    rfl

/-! ## 2. Numbers -/

/-- The whole part of a number: a zero stands alone. -/
def WholeText (ds : List Char) : Prop := ds = ['0'] ∨ (Digits ds ∧ ds.head? ≠ some '0')

theorem head?_toDigits {k : Nat} (hk : 0 < k) : (Nat.toDigits 10 k).head? ≠ some '0' := by
  induction k using Nat.strongRecOn with
  | ind k ih =>
    by_cases hlt : k < 10
    · rw [Nat.toDigits_of_lt_base hlt]
      have hall : ∀ d < 10, 0 < d → [Nat.digitChar d].head? ≠ some '0' := by decide
      exact hall k hlt hk
    · rw [Nat.toDigits_of_base_le (by decide) (by omega)]
      have hhead := ih (k / 10) (by omega) (by omega)
      have hne : Nat.toDigits 10 (k / 10) ≠ [] := Nat.toDigits_ne_nil
      obtain ⟨c, more, heq⟩ := List.exists_cons_of_ne_nil hne
      rw [heq] at hhead ⊢
      exact hhead

/-- The digits of a number have no leading zeros. -/
theorem wholeText_toDigits (k : Nat) : WholeText (Nat.toDigits 10 k) := by
  by_cases hk : k = 0
  · subst hk
    exact .inl rfl
  · exact .inr ⟨digits_toDigits k, head?_toDigits (by omega)⟩

/-- The digits of a fraction and its text. -/
inductive FractionText : List Char → List Char → Prop
  | missing : FractionText [] []
  | digits {ds : List Char} (h : Digits ds) : FractionText ds ('.' :: ds)

/-- A power of ten and its text. -/
inductive PowerText : Int → List Char → Prop
  | missing : PowerText 0 []
  | bare {e : Char} {ds : List Char} (he : e = 'e' ∨ e = 'E') (h : Digits ds) :
      PowerText (ofDigits ds) (e :: ds)
  | plus {e : Char} {ds : List Char} (he : e = 'e' ∨ e = 'E') (h : Digits ds) :
      PowerText (ofDigits ds) (e :: '+' :: ds)
  | minus {e : Char} {ds : List Char} (he : e = 'e' ∨ e = 'E') (h : Digits ds) :
      PowerText (-(ofDigits ds : Int)) (e :: '-' :: ds)

/-- A number and its text. -/
inductive NumberText : Number → List Char → Prop
  | mk (negative : Bool) {whole fraction : List Char} {power : Int} {cs ds : List Char}
      (hwhole : WholeText whole) (hfraction : FractionText fraction cs)
      (hpower : PowerText power ds) :
      NumberText { negative, whole, fraction, power }
        ((if negative then ['-'] else []) ++ whole ++ cs ++ ds)

/-- The blanks that may stand between the parts of a document. -/
def Blanks (ws : List Char) : Prop := ∀ c ∈ ws, isJsonBlank c = true

theorem blanks_nil : Blanks [] := by simp [Blanks]

theorem blanks_one : Blanks [' '] := by
  intro c hc
  obtain rfl := List.mem_singleton.1 hc
  rfl

/-- What may follow a value: a blank, the next value or the end of what holds it. -/
def Ends (rest : List Char) : Prop :=
  ∀ c ∈ rest.head?, isJsonBlank c = true ∨ c = ',' ∨ c = ']' ∨ c = '}'

/-- What goes on with neither a digit nor a fraction nor a power. -/
def NumberEnd (rest : List Char) : Prop :=
  ∀ c ∈ rest.head?, c.isDigit = false ∧ c ≠ '.' ∧ c ≠ 'e' ∧ c ≠ 'E'

section
variable {ds rest : List Char}

theorem Ends.numberEnd (h : Ends rest) : NumberEnd rest := by
  intro c hc
  rcases h c hc with hblank | rfl | rfl | rfl
  · simp only [isJsonBlank, Bool.or_eq_true, beq_iff_eq] at hblank
    rcases hblank with ((rfl | rfl) | rfl) | rfl <;> decide
  · decide
  · decide
  · decide

theorem digits?_append (h : Digits ds) (hrest : ∀ c ∈ rest.head?, c.isDigit = false) :
    digits? (ds ++ rest) = some (ds, rest) := by
  obtain ⟨htake, hdrop⟩ := takeWhile_append_of_head h.2 hrest
  rw [digits?, htake, hdrop]
  obtain ⟨c, more, rfl⟩ := List.exists_cons_of_ne_nil h.1
  rfl

/-- A whole part starts with a digit. -/
theorem WholeText.head (h : WholeText ds) : ∃ c more, ds = c :: more ∧ c.isDigit = true := by
  rcases h with rfl | ⟨hdigits, -⟩
  · exact ⟨'0', [], rfl, rfl⟩
  · obtain ⟨c, more, rfl⟩ := List.exists_cons_of_ne_nil hdigits.1
    exact ⟨c, more, rfl, hdigits.2 c (by simp)⟩

theorem wholePart?_append (h : WholeText ds) (hrest : ∀ c ∈ rest.head?, c.isDigit = false) :
    wholePart? (ds ++ rest) = some (ds, rest) := by
  rcases h with rfl | ⟨hdigits, hzero⟩
  · rfl
  · rw [wholePart?, digits?_append hdigits hrest]
    rintro more hmore
    obtain ⟨c, tail, rfl⟩ := List.exists_cons_of_ne_nil hdigits.1
    rw [List.cons_append] at hmore
    injection hmore with hc
    exact hzero (by rw [hc]; rfl)

theorem digits_of_digits? {cs : List Char} (h : digits? cs = some (ds, rest)) :
    cs = ds ++ rest ∧ Digits ds := by
  unfold digits? at h
  split at h
  · cases h
  · rename_i hne
    cases h
    refine ⟨List.takeWhile_append_dropWhile.symm, hne, ?_⟩
    intro c hc
    exact List.all_eq_true.1 List.all_takeWhile c hc

/-- Only whole parts are read. -/
theorem wholeText_of_wholePart? {cs : List Char} (h : wholePart? cs = some (ds, rest)) :
    cs = ds ++ rest ∧ WholeText ds := by
  unfold wholePart? at h
  split at h
  · cases h
    exact ⟨rfl, .inl rfl⟩
  · rename_i hzero
    obtain ⟨rfl, hdigits⟩ := digits_of_digits? h
    refine ⟨rfl, .inr ⟨hdigits, ?_⟩⟩
    intro hhead
    obtain ⟨tail, rfl⟩ := List.head?_eq_some_iff.1 hhead
    exact hzero (tail ++ rest) rfl

theorem fractionPart?_append {cs : List Char} (h : FractionText ds cs)
    (hrest : ∀ c ∈ rest.head?, c.isDigit = false ∧ c ≠ '.') :
    fractionPart? (cs ++ rest) = some (ds, rest) := by
  cases h with
  | missing =>
    rw [List.nil_append, fractionPart?]
    rintro more rfl
    exact (hrest '.' rfl).2 rfl
  | digits h => exact digits?_append h fun c hc => (hrest c hc).1

theorem powerPart?_append {k : Int} {cs : List Char} (h : PowerText k cs) (hrest : NumberEnd rest) :
    powerPart? (cs ++ rest) = some (k, rest) := by
  have hdigit : ∀ c ∈ rest.head?, c.isDigit = false := fun c hc => (hrest c hc).1
  cases h with
  | missing =>
    cases rest with
    | nil => rfl
    | cons c rest =>
      have hmark : ¬(c = 'e' ∨ c = 'E') := by
        rintro (h | h)
        · exact (hrest c rfl).2.2.1 h
        · exact (hrest c rfl).2.2.2 h
      unfold powerPart?
      exact if_neg hmark
  | bare he h =>
    obtain ⟨c, more, rfl⟩ := List.exists_cons_of_ne_nil h.1
    have hc : c.isDigit = true := h.2 c (by simp)
    rw [List.cons_append, powerPart?, if_pos he, digits?_append h hdigit]
    · rfl
    · rintro tail heq
      injection heq with heq
      exact absurd hc (by rw [heq]; decide)
    · rintro tail heq
      injection heq with heq
      exact absurd hc (by rw [heq]; decide)
  | plus he h =>
    rw [List.cons_append, List.cons_append, powerPart?, if_pos he, digits?_append h hdigit]
    rfl
  | minus he h =>
    rw [List.cons_append, List.cons_append, powerPart?, if_pos he, digits?_append h hdigit]
    rfl

/-- A power does not go on with what stands before it. -/
theorem PowerText.end_append {k : Int} {cs : List Char} (h : PowerText k cs)
    (hrest : NumberEnd rest) : ∀ c ∈ (cs ++ rest).head?, c.isDigit = false ∧ c ≠ '.' := by
  have hmark {e : Char} (he : e = 'e' ∨ e = 'E') : e.isDigit = false ∧ e ≠ '.' := by
    rcases he with rfl | rfl <;> decide
  cases h with
  | missing => exact fun c hc => ⟨(hrest c hc).1, (hrest c hc).2.1⟩
  | bare he _ => simpa using hmark he
  | plus he _ => simpa using hmark he
  | minus he _ => simpa using hmark he

theorem FractionText.end_append {cs : List Char} (h : FractionText ds cs)
    (hrest : ∀ c ∈ rest.head?, c.isDigit = false) :
    ∀ c ∈ (cs ++ rest).head?, c.isDigit = false := by
  cases h with
  | missing => exact hrest
  | digits h => simp

theorem signPart_append (negative : Bool) {whole : List Char} (h : WholeText whole)
    (rest : List Char) :
    signPart ((if negative then ['-'] else []) ++ whole ++ rest) = (negative, whole ++ rest) := by
  cases negative with
  | true => rfl
  | false =>
    obtain ⟨c, more, rfl, hc⟩ := h.head
    change signPart (c :: (more ++ rest)) = (false, c :: (more ++ rest))
    rw [signPart]
    rintro tail heq
    injection heq with heq
    exact absurd hc (by rw [heq]; decide)

theorem eq_of_signPart {negative : Bool} {cs : List Char} (h : signPart cs = (negative, rest)) :
    cs = (if negative then ['-'] else []) ++ rest := by
  unfold signPart at h
  split at h
  · cases h
    rfl
  · cases h
    rfl

end

/-- **A number is read to its end.** -/
theorem number?_of_numberText {n : Number} {cs rest : List Char} (h : NumberText n cs)
    (hrest : NumberEnd rest) : number? (cs ++ rest) = some (n, rest) := by
  cases h with
  | mk negative hwhole hfraction hpower =>
    rename_i whole fraction power fs ps
    have hafter := hpower.end_append hrest
    have hdigit := hfraction.end_append fun c hc => (hafter c hc).1
    rw [List.append_assoc, List.append_assoc, number?, signPart_append negative hwhole]
    simp only [wholePart?_append hwhole hdigit, fractionPart?_append hfraction hafter,
      powerPart?_append hpower hrest, Option.bind_eq_bind, Option.bind_some]
    rfl

/-! ## 3. Words -/

theorem expect?_append (word : String) (rest : List Char) :
    expect? word (word.toList ++ rest) = some rest := by
  rw [expect?, if_pos (List.isPrefixOf_iff_prefix.2 (List.prefix_append ..)),
    ← String.length_toList, List.drop_left]

theorem eq_of_expect? {word : String} {cs rest : List Char} (h : expect? word cs = some rest) :
    cs = word.toList ++ rest := by
  unfold expect? at h
  split at h
  · rename_i hword
    cases h
    obtain ⟨tail, rfl⟩ := List.isPrefixOf_iff_prefix.1 hword
    rw [← String.length_toList, List.drop_left]
  · cases h

/-! ## 4. Values -/

/-- What a text may spell: a value, or all that stands between the brackets of one that is not
empty. -/
inductive Part where
  | value (v : Json)
  | items (vs : List Json)
  | members (ms : List (List Piece × Json))

/-- The texts of values, items and members. -/
inductive Spells : Part → List Char → Prop
  | null : Spells (.value .null) "null".toList
  | bool (b : Bool) : Spells (.value (.bool b)) (if b then "true".toList else "false".toList)
  | number {n : Number} {cs : List Char} (h : NumberText n cs) : Spells (.value (.number n)) cs
  | string {ps : List Piece} {cs : List Char} (h : PiecesText ps cs) :
      Spells (.value (.string ps)) ('"' :: cs ++ ['"'])
  | emptyArray {ws : List Char} (hws : Blanks ws) : Spells (.value (.array [])) ('[' :: ws ++ [']'])
  | array {vs : List Json} {cs : List Char} (h : Spells (.items vs) cs) :
      Spells (.value (.array vs)) ('[' :: cs ++ [']'])
  | emptyObject {ws : List Char} (hws : Blanks ws) :
      Spells (.value (.object [])) ('{' :: ws ++ ['}'])
  | object {ms : List (List Piece × Json)} {cs : List Char} (h : Spells (.members ms) cs) :
      Spells (.value (.object ms)) ('{' :: cs ++ ['}'])
  | lastItem {v : Json} {ws cs ws' : List Char} (hws : Blanks ws) (hv : Spells (.value v) cs)
      (hws' : Blanks ws') : Spells (.items [v]) (ws ++ cs ++ ws')
  | item {v : Json} {vs : List Json} {ws cs ws' ds : List Char} (hws : Blanks ws)
      (hv : Spells (.value v) cs) (hws' : Blanks ws') (hvs : Spells (.items vs) ds) :
      Spells (.items (v :: vs)) (ws ++ cs ++ ws' ++ ',' :: ds)
  | lastMember {key : List Piece} {v : Json} {ws ks ws' us cs us' : List Char} (hws : Blanks ws)
      (hkey : PiecesText key ks) (hws' : Blanks ws') (hus : Blanks us) (hv : Spells (.value v) cs)
      (hus' : Blanks us') :
      Spells (.members [(key, v)]) (ws ++ ('"' :: ks ++ ['"']) ++ ws' ++ ':' :: (us ++ cs ++ us'))
  | member {key : List Piece} {v : Json} {ms : List (List Piece × Json)}
      {ws ks ws' us cs us' ds : List Char} (hws : Blanks ws) (hkey : PiecesText key ks)
      (hws' : Blanks ws') (hus : Blanks us) (hv : Spells (.value v) cs) (hus' : Blanks us')
      (hms : Spells (.members ms) ds) :
      Spells (.members ((key, v) :: ms))
        (ws ++ ('"' :: ks ++ ['"']) ++ ws' ++ ':' :: (us ++ cs ++ us' ++ ',' :: ds))

/-- A whole document: one value with blanks around it. -/
def IsDocument (v : Json) (text : List Char) : Prop :=
  ∃ ws cs ws', Blanks ws ∧ Spells (.value v) cs ∧ Blanks ws' ∧ text = ws ++ cs ++ ws'

/-! ## 5. Reading values -/

section
variable {ws cs rest : List Char}

theorem skipBlanks_append (hws : Blanks ws) (hrest : ∀ c ∈ rest.head?, isJsonBlank c = false) :
    skipBlanks (ws ++ rest) = rest :=
  (takeWhile_append_of_head hws hrest).2

/-- The first character after blanks. -/
theorem skipBlanks_cons (hws : Blanks ws) {c : Char} (hc : isJsonBlank c = false)
    (rest : List Char) : skipBlanks (ws ++ c :: rest) = c :: rest :=
  skipBlanks_append hws (by simpa using hc)

/-- Blanks and a mark may follow a value. -/
theorem ends_append (hws : Blanks ws) {c : Char} (hc : c = ',' ∨ c = ']' ∨ c = '}')
    (rest : List Char) : Ends (ws ++ c :: rest) := by
  cases ws with
  | nil =>
    intro c' hc'
    obtain rfl : c = c' := by simpa using hc'
    exact .inr hc
  | cons w ws =>
    intro c' hc'
    obtain rfl : w = c' := by simpa using hc'
    exact .inl (hws w (by simp))

/-- A value starts with something that is neither a blank nor a closing bracket. -/
theorem Spells.head {v : Json} (h : Spells (.value v) cs) :
    ∃ c more, cs = c :: more ∧ isJsonBlank c = false ∧ c ≠ ']' := by
  cases h with
  | null => exact ⟨'n', _, rfl, by decide, by decide⟩
  | bool b => cases b <;> exact ⟨_, _, rfl, by decide, by decide⟩
  | number h =>
    cases h with
    | mk negative hwhole _ _ =>
      cases negative with
      | true => exact ⟨'-', _, rfl, by decide, by decide⟩
      | false =>
        obtain ⟨c, more, rfl, hc⟩ := hwhole.head
        refine ⟨c, _, rfl, ?_, ?_⟩
        · rw [Bool.eq_false_iff]
          intro hblank
          simp only [isJsonBlank, Bool.or_eq_true, beq_iff_eq] at hblank
          rcases hblank with ((rfl | rfl) | rfl) | rfl <;> exact absurd hc (by decide)
        · rintro rfl
          exact absurd hc (by decide)
  | string h => exact ⟨'"', _, rfl, by decide, by decide⟩
  | emptyArray h => exact ⟨'[', _, rfl, by decide, by decide⟩
  | array h => exact ⟨'[', _, rfl, by decide, by decide⟩
  | emptyObject h => exact ⟨'{', _, rfl, by decide, by decide⟩
  | object h => exact ⟨'{', _, rfl, by decide, by decide⟩

/-- The first value after blanks. -/
theorem Spells.skipBlanks_eq {v : Json} (h : Spells (.value v) cs) (hws : Blanks ws)
    (rest : List Char) : skipBlanks (ws ++ (cs ++ rest)) = cs ++ rest := by
  obtain ⟨c, more, rfl, hc, -⟩ := h.head
  exact skipBlanks_cons hws hc (more ++ rest)

end

/-- That a part is read from its text, whatever may follow it.  Two steps for each character are
enough. -/
def Part.ReadFrom (cs : List Char) : Part → Prop
  | .value v => ∀ n rest, 2 * cs.length ≤ n + 2 → Ends rest →
      value? (n + 1) (cs ++ rest) = some (v, rest)
  | .items vs => ∀ n rest, 2 * cs.length ≤ n →
      items? (n + 1) (skipBlanks (cs ++ ']' :: rest)) = some (vs, rest)
  | .members ms => ∀ n rest, 2 * cs.length ≤ n →
      members? (n + 1) (skipBlanks (cs ++ '}' :: rest)) = some (ms, rest)

section
variable {cs rest : List Char}

theorem value?_of_numberText {k : Number} (h : NumberText k cs) (hrest : Ends rest) (n : Nat) :
    value? (n + 1) (cs ++ rest) = some (.number k, rest) := by
  have hread := number?_of_numberText h hrest.numberEnd
  obtain ⟨c, more, rfl, hc⟩ : ∃ c more, cs = c :: more ∧ (c.isDigit = true ∨ c = '-') := by
    cases h with
    | mk negative hwhole _ _ =>
      cases negative with
      | true => exact ⟨'-', _, rfl, .inr rfl⟩
      | false =>
        obtain ⟨c, more, rfl, hc⟩ := hwhole.head
        exact ⟨c, _, rfl, .inl hc⟩
  have hne : ∀ d ∈ ['"', '[', '{', 'n', 't', 'f'], c ≠ d := by
    rintro d hd rfl
    simp only [List.mem_cons, List.not_mem_nil, or_false] at hd
    rcases hd with rfl | rfl | rfl | rfl | rfl | rfl <;> exact absurd hc (by decide)
  simp only [List.mem_cons, List.not_mem_nil, or_false, forall_eq_or_imp, forall_eq] at hne
  rw [List.cons_append] at hread ⊢
  rw [value?]
  · rw [hread]
    rfl
  all_goals simp [hne]

theorem value?_of_piecesText {ps : List Piece} (h : PiecesText ps cs) (n : Nat) (rest : List Char) :
    value? (n + 1) ('"' :: cs ++ ['"'] ++ rest) = some (.string ps, rest) := by
  rw [List.append_assoc, List.cons_append, List.singleton_append, value?, pieces_of_piecesText h]
  rfl

/-- Items start with a value, so not with the bracket of an empty array. -/
theorem Spells.items_start {vs : List Json} (h : Spells (.items vs) cs) (rest : List Char) :
    ∃ c more, skipBlanks (cs ++ rest) = c :: more ∧ c ≠ ']' := by
  cases h with
  | lastItem hws hv _ =>
    obtain ⟨c, more, rfl, hblank, hc⟩ := hv.head
    simp only [List.append_assoc, List.cons_append]
    exact ⟨c, _, skipBlanks_cons hws hblank _, hc⟩
  | item hws hv _ _ =>
    obtain ⟨c, more, rfl, hblank, hc⟩ := hv.head
    simp only [List.append_assoc, List.cons_append]
    exact ⟨c, _, skipBlanks_cons hws hblank _, hc⟩

/-- Members start with a key. -/
theorem Spells.members_start {ms : List (List Piece × Json)} (h : Spells (.members ms) cs)
    (rest : List Char) : ∃ more, skipBlanks (cs ++ rest) = '"' :: more := by
  cases h with
  | lastMember hws _ _ _ _ _ =>
    simp only [List.append_assoc, List.cons_append]
    exact ⟨_, skipBlanks_cons hws rfl _⟩
  | member hws _ _ _ _ _ _ =>
    simp only [List.append_assoc, List.cons_append]
    exact ⟨_, skipBlanks_cons hws rfl _⟩

/-- The value after blanks, read with enough steps. -/
theorem Spells.value?_eq {v : Json} (h : Spells (.value v) cs) (hread : (Part.value v).ReadFrom cs)
    {ws : List Char} (hws : Blanks ws) (hrest : Ends rest) {n : Nat} (hn : 2 * cs.length ≤ n) :
    value? n (skipBlanks (ws ++ (cs ++ rest))) = some (v, rest) := by
  rw [h.skipBlanks_eq hws]
  obtain ⟨c, more, rfl, -⟩ := h.head
  rw [List.length_cons] at hn
  obtain ⟨n, rfl⟩ : ∃ m, n = m + 1 := Nat.exists_eq_add_of_le' (by omega)
  exact hread n rest (by rw [List.length_cons]; omega) hrest

/-- A step through the items of an array. -/
theorem items?_of_value {n : Nat} {v : Json} {ws : List Char} {c : Char}
    (h : value? n cs = some (v, ws ++ c :: rest)) (hws : Blanks ws) (hc : c = ',' ∨ c = ']') :
    items? (n + 1) cs =
      if c = ',' then (items? n (skipBlanks rest)).map fun (vs, after) => (v :: vs, after)
      else some ([v], rest) := by
  rw [items?, h]
  rcases hc with rfl | rfl
  · simp only [Option.bind_eq_bind, Option.bind_some, skipBlanks_cons hws (c := ',') rfl, if_true]
    cases items? n (skipBlanks rest) <;> rfl
  · simp only [Option.bind_eq_bind, Option.bind_some, skipBlanks_cons hws (c := ']') rfl]
    rfl

/-- A step through the members of an object. -/
theorem members?_of_value {n : Nat} {key : List Piece} {ks : List Char} (hkey : PiecesText key ks)
    {ws us : List Char} (hws : Blanks ws) {v : Json} {c : Char}
    (h : value? n (skipBlanks cs) = some (v, us ++ c :: rest)) (hus : Blanks us)
    (hc : c = ',' ∨ c = '}') :
    members? (n + 1) ('"' :: (ks ++ '"' :: (ws ++ ':' :: cs))) =
      if c = ',' then (members? n (skipBlanks rest)).map fun (ms, after) => ((key, v) :: ms, after)
      else some ([(key, v)], rest) := by
  rw [members?, pieces_of_piecesText hkey]
  simp only [Option.bind_eq_bind, Option.bind_some, skipBlanks_cons hws (c := ':') rfl, h]
  rcases hc with rfl | rfl
  · simp only [skipBlanks_cons hus (c := ',') rfl, if_true]
    cases members? n (skipBlanks rest) <;> rfl
  · simp only [skipBlanks_cons hus (c := '}') rfl]
    rfl

/-- An array is read if its items are. -/
theorem Spells.readFrom_array {vs : List Json} (h : Spells (.items vs) cs)
    (hitems : (Part.items vs).ReadFrom cs) :
    (Part.value (.array vs)).ReadFrom ('[' :: cs ++ [']']) := by
  intro n rest hn _
  simp only [List.cons_append, List.length_cons, List.length_append] at hn
  obtain ⟨n, rfl⟩ : ∃ m, n = m + 1 := Nat.exists_eq_add_of_le' (by omega)
  obtain ⟨c, more, hstart, hc⟩ := h.items_start (']' :: rest)
  have hread := hitems n rest (by omega)
  rw [hstart] at hread
  rw [List.append_assoc, List.cons_append, List.singleton_append, value?]
  simp only [hstart]
  split
  · rename_i heq
    injection heq with heq
    exact absurd heq hc
  · rw [hread]
    rfl

/-- An object is read if its members are. -/
theorem Spells.readFrom_object {ms : List (List Piece × Json)} (h : Spells (.members ms) cs)
    (hmembers : (Part.members ms).ReadFrom cs) :
    (Part.value (.object ms)).ReadFrom ('{' :: cs ++ ['}']) := by
  intro n rest hn _
  simp only [List.cons_append, List.length_cons, List.length_append] at hn
  obtain ⟨n, rfl⟩ : ∃ m, n = m + 1 := Nat.exists_eq_add_of_le' (by omega)
  obtain ⟨more, hstart⟩ := h.members_start ('}' :: rest)
  have hread := hmembers n rest (by omega)
  rw [hstart] at hread
  rw [List.append_assoc, List.cons_append, List.singleton_append, value?]
  simp only [hstart]
  split
  · rename_i heq
    injection heq with heq
    exact absurd heq (by decide)
  · rw [hread]
    rfl

section
variable {v : Json} {ds ws ws' us us' ks : List Char} {key : List Piece}

/-- Items are read if the first one and the others are. -/
theorem Spells.readFrom_item (hv : Spells (.value v) cs) (hws : Blanks ws) (hws' : Blanks ws')
    (hfirst : (Part.value v).ReadFrom cs) {vs : List Json} (hmore : (Part.items vs).ReadFrom ds) :
    (Part.items (v :: vs)).ReadFrom (ws ++ cs ++ ws' ++ ',' :: ds) := by
  intro n rest hn
  simp only [List.length_append, List.length_cons] at hn
  have hvalue := hv.value?_eq hfirst hws (ends_append hws' (.inl rfl) (ds ++ ']' :: rest)) (n := n)
    (by omega)
  obtain ⟨n, rfl⟩ : ∃ m, n = m + 1 := Nat.exists_eq_add_of_le' (by omega)
  have hitems := hmore n rest (by omega)
  rw [List.append_assoc, List.append_assoc, List.append_assoc, List.cons_append,
    items?_of_value hvalue hws' (.inl rfl), if_pos rfl, hitems]
  rfl

/-- Members are read if the value of the first one and the others are. -/
theorem Spells.readFrom_member (hv : Spells (.value v) cs) (hkey : PiecesText key ks)
    (hws : Blanks ws) (hws' : Blanks ws') (hus : Blanks us) (hus' : Blanks us')
    (hfirst : (Part.value v).ReadFrom cs) {ms : List (List Piece × Json)}
    (hmore : (Part.members ms).ReadFrom ds) :
    (Part.members ((key, v) :: ms)).ReadFrom
      (ws ++ ('"' :: ks ++ ['"']) ++ ws' ++ ':' :: (us ++ cs ++ us' ++ ',' :: ds)) := by
  intro n rest hn
  simp only [List.length_append, List.length_cons] at hn
  have hvalue := hv.value?_eq hfirst hus (ends_append hus' (.inl rfl) (ds ++ '}' :: rest)) (n := n)
    (by omega)
  obtain ⟨n, rfl⟩ : ∃ m, n = m + 1 := Nat.exists_eq_add_of_le' (by omega)
  have hmembers := hmore n rest (by omega)
  simp only [List.append_assoc, List.cons_append, List.nil_append]
  rw [skipBlanks_cons hws rfl, members?_of_value hkey hws' hvalue hus' (.inl rfl), if_pos rfl,
    hmembers]
  rfl

end

end

/-- **Every part is read from its text.** -/
theorem readFrom_of_spells {part : Part} {cs : List Char} (h : Spells part cs) :
    part.ReadFrom cs := by
  induction h with
  | null => exact fun n rest _ _ => rfl
  | bool b => exact fun n rest _ _ => by cases b <;> rfl
  | number h => exact fun n rest _ hrest => value?_of_numberText h hrest n
  | string h => exact fun n rest _ _ => value?_of_piecesText h n rest
  | emptyArray hws =>
    intro n rest _ _
    rw [List.append_assoc, List.cons_append, List.singleton_append, value?]
    simp only [skipBlanks_cons hws (c := ']') rfl]
  | array h ih => exact h.readFrom_array ih
  | emptyObject hws =>
    intro n rest _ _
    rw [List.append_assoc, List.cons_append, List.singleton_append, value?]
    simp only [skipBlanks_cons hws (c := '}') rfl]
  | object h ih => exact h.readFrom_object ih
  | lastItem hws hv hws' ih =>
    intro n rest hn
    simp only [List.length_append] at hn
    have hvalue := hv.value?_eq ih hws (ends_append hws' (.inr (.inl rfl)) rest) (n := n) (by omega)
    rw [List.append_assoc, List.append_assoc, items?_of_value hvalue hws' (.inr rfl)]
    rfl
  | item hws hv hws' _ ihv ihvs => exact hv.readFrom_item hws hws' ihv ihvs
  | lastMember hws hkey hws' hus hv hus' ih =>
    intro n rest hn
    simp only [List.length_append, List.length_cons] at hn
    have hvalue := hv.value?_eq ih hus (ends_append hus' (.inr (.inr rfl)) rest) (n := n) (by omega)
    simp only [List.append_assoc, List.cons_append, List.nil_append]
    rw [skipBlanks_cons hws rfl, members?_of_value hkey hws' hvalue hus' (.inr rfl)]
    rfl
  | member hws hkey hws' hus hv hus' _ ihv ihms =>
    exact hv.readFrom_member hkey hws hws' hus hus' ihv ihms

/-- **Every document of the grammar is read, and gives its tree.** -/
theorem document?_of_isDocument {v : Json} {text : List Char} (h : IsDocument v text) :
    document? text = some v := by
  obtain ⟨ws, cs, ws', hws, hv, hws', rfl⟩ := h
  have hends : Ends ws' := by
    intro c hc
    exact .inl (hws' c (List.mem_of_mem_head? hc))
  have hafter : skipBlanks ws' = [] := by
    rw [← List.append_nil ws']
    exact skipBlanks_append hws' (by simp)
  have hvalue := hv.value?_eq (readFrom_of_spells hv) hws hends
    (n := 2 * (ws ++ (cs ++ ws')).length + 2) (by simp only [List.length_append]; omega)
  rw [List.append_assoc, document?, hvalue]
  simp only [Option.bind_eq_bind, Option.bind_some, hafter]
  rfl

/-- A text has one tree at most. -/
theorem IsDocument.unique {v w : Json} {text : List Char} (hv : IsDocument v text)
    (hw : IsDocument w text) : v = w := by
  have hread := document?_of_isDocument hv
  rw [document?_of_isDocument hw] at hread
  injection hread with hread
  exact hread.symm

end TemplateCompiler.Config
