import TemplateCompiler.Proofs.Expr.PhraseRead
import TemplateCompiler.Proofs.Target.Lexeme
import TemplateCompiler.Proofs.Target.Print

/-! # What string literals mean

The language of the templates has more escapes than the reader reads.  `meaning?` is the value of
a literal by the rules of the language: the short escapes, one to three octal digits, two, four or
eight hexadecimal digits, and a line break that is left out with its backslash.  A backslash before
any other character stands for itself.  The value is a sequence of code points, since an escape may
name one that is no character, and there is none if the digits of an escape are missing.

The reader takes every literal that ends (`Expr.read_literal`), and what it makes of it is
`reading`.  An escape that it does not know keeps its backslash, also where the language means
something else by it: `unreadLetters` are the characters after which this happens.  Such an escape
is too long, and nothing else is too short to make up for it (`roomy_of_literalBody`), so the
reading is the meaning exactly where none of these escapes is used (`compileExpr_literal`).
-/

namespace TemplateCompiler

open Text Reading

namespace Reading

/-! ## 1. The meaning of a literal -/

/-- What a backslash does, by the character after it. -/
inductive EscapeKind where
  /-- The two are left out. -/
  | gone
  /-- The two stand for one code point. -/
  | one (code : Nat)
  /-- The character is the first of at most three octal digits. -/
  | octal (digit : Nat)
  /-- So many hexadecimal digits follow. -/
  | hex (digits : Nat)
  /-- The two stand for themselves. -/
  | kept
  deriving DecidableEq, Repr

/-- The value of an octal digit. -/
def octalDigit? (c : Char) : Option Nat :=
  if c ∈ "01234567".toList then some (c.toNat - '0'.toNat) else none

/-- The kind of an escape. -/
def escapeKind (c : Char) : EscapeKind :=
  if c = '\n' then .gone
  else if c = '\\' ∨ c = '\'' ∨ c = '"' then .one c.toNat
  else if c = 'a' then .one 0x07
  else if c = 'b' then .one 0x08
  else if c = 'f' then .one 0x0C
  else if c = 'n' then .one 0x0A
  else if c = 'r' then .one 0x0D
  else if c = 't' then .one 0x09
  else if c = 'v' then .one 0x0B
  else if c = 'x' then .hex 2
  else if c = 'u' then .hex 4
  else if c = 'U' then .hex 8
  else match octalDigit? c with
    | some d => .octal d
    | none => .kept

/-- Where the reading of a literal's body stands. -/
inductive Decoder where
  | plain
  | backslash
  /-- In an octal escape: its value so far, and how many digits may follow. -/
  | octal (value left : Nat)
  /-- In a hexadecimal escape: its value so far, and how many digits have to follow. -/
  | hex (value left : Nat)
  deriving DecidableEq, Repr

/-- The code points that a body stands for, from a state on. -/
def Decoder.run : Decoder → List Char → Option (List Nat)
  | .plain, [] => some []
  | .octal value _, [] => some [value]
  | .backslash, [] => none
  | .hex _ _, [] => none
  | .plain, c :: rest =>
    if c = '\\' then run .backslash rest else (run .plain rest).map (c.toNat :: ·)
  | .backslash, c :: rest =>
    match escapeKind c with
    | .gone => run .plain rest
    | .one code => (run .plain rest).map (code :: ·)
    | .octal digit => run (.octal digit 2) rest
    | .hex digits => run (.hex 0 digits) rest
    | .kept => (run .plain rest).map fun codes => '\\'.toNat :: c.toNat :: codes
  | .octal value left, c :: rest =>
    match if 0 < left then octalDigit? c else none with
    | some d => run (.octal (8 * value + d) (left - 1)) rest
    | none =>
      if c = '\\' then (run .backslash rest).map (value :: ·)
      else (run .plain rest).map fun codes => value :: c.toNat :: codes
  | .hex value left, c :: rest =>
    match Target.hexDigit? c with
    | none => none
    | some d =>
      if 1 < left then run (.hex (16 * value + d) (left - 1)) rest
      else if 16 * value + d ≤ 0x10FFFF then
        (run .plain rest).map ((16 * value + d) :: ·)
      else none

/-- **The value of a string literal**, given what stands between its quotation marks. -/
def meaning? (body : List Char) : Option (List Nat) := Decoder.plain.run body

/-! ## 2. The reading of a literal -/

/-- What the reader takes a body for. -/
def reading : List Char → List Char
  | [] => []
  | c :: rest =>
    if c = '\\' then
      match rest with
      | [] => []
      | d :: rest => unescape d ++ reading rest
    else c :: reading rest

/-- The characters that stand after a backslash which escapes them. -/
def escapeLetters : List Char → List Char
  | [] => []
  | c :: rest =>
    if c = '\\' then
      match rest with
      | [] => []
      | d :: rest => d :: escapeLetters rest
    else escapeLetters rest

/-- The characters after which the reader keeps a backslash that the language does not keep. -/
def unreadLetters : List Char := "\nabfvxuU01234567".toList

theorem reading_cons {c : Char} (hc : c ≠ '\\') (rest : List Char) :
    reading (c :: rest) = c :: reading rest := by
  rw [reading.eq_def]
  simp [hc]

theorem reading_escape (c : Char) (rest : List Char) :
    reading ('\\' :: c :: rest) = unescape c ++ reading rest := by
  simp [reading]

theorem escapeLetters_cons {c : Char} (hc : c ≠ '\\') (rest : List Char) :
    escapeLetters (c :: rest) = escapeLetters rest := by
  rw [escapeLetters.eq_def]
  simp [hc]

theorem escapeLetters_escape (c : Char) (rest : List Char) :
    escapeLetters ('\\' :: c :: rest) = c :: escapeLetters rest := by
  simp [escapeLetters]

theorem stringBody?_reading {q : Char} (hq : q ≠ '\\') {body : List Char}
    (h : LiteralBody q body) (rest : List Char) :
    stringBody? q (body ++ q :: rest) = some (reading body, rest) := by
  induction h with
  | nil => rw [List.nil_append, stringBody?_cons hq, if_pos rfl]; rfl
  | plain hc hcq _ ih =>
    rw [List.cons_append, stringBody?_cons hc, if_neg hcq, ih, reading_cons hc]
    rfl
  | escape _ ih =>
    rw [reading_escape, List.cons_append, List.cons_append, stringBody?.eq_def]
    simp [ih]

end Reading

/-- **Every literal that ends is read.** -/
theorem Expr.read_literal {q : Char} (hq : isQuote q = true) {body : List Char}
    (h : LiteralBody q body) : Expr.read (q :: (body ++ [q])) = .ok (.text (reading body)) := by
  obtain ⟨hblank, -, -, hident, hb⟩ := classes_of_isQuote hq
  have htight : Tight (q :: (body ++ [q])) :=
    ⟨⟨q, body ++ [q], rfl, hblank⟩, ⟨q :: body, q, rfl, hblank⟩⟩
  have hword : isReservedWord (q :: (body ++ [q])) = false :=
    isReservedWord_eq_false (c := q) (by simp)
      (by rcases isQuote_iff.1 hq with rfl | rfl <;> decide)
  have hfirst : (q :: (body ++ [q])).takeWhile isIdentChar = [] :=
    List.takeWhile_cons_of_neg (by simp [hident])
  have hprimary : primary Expr.read (q :: (body ++ [q])) (q :: (body ++ [q])) =
      .ok (.text (reading body), []) := by
    simp only [primary, hq, if_true, stringBody?_reading hb h []]
  refine Expr.read_of_accessed (.literal hq h .nil) htight hword (by simp [hfirst]) ?_ ?_ ?_
  · rintro rfl
    exact absurd hq (by decide)
  · rintro rfl
    exact absurd hq (by decide)
  · rw [accessed_of_primary hprimary, postfixes_nil]

namespace Reading

/-! ## 3. Where the two agree -/

/-- After these characters the reader keeps a backslash that the language does not keep. -/
theorem unescape_of_mem_unreadLetters {c : Char} (h : c ∈ unreadLetters) :
    unescape c = ['\\', c] ∧ escapeKind c ≠ .kept := by
  have hall : ∀ c ∈ unreadLetters, unescape c = ['\\', c] ∧ escapeKind c ≠ .kept :=
    forall_mem_of_all (by decide)
  exact hall c h

/-- After any other character the two do the same. -/
theorem escapeKind_of_not_mem_unreadLetters {c : Char} (h : c ∉ unreadLetters) :
    (∃ d, escapeKind c = .one d.toNat ∧ unescape c = [d]) ∨
      (escapeKind c = .kept ∧ unescape c = ['\\', c]) := by
  have hne {d : Char} (hd : d ∈ unreadLetters) : c ≠ d := by
    rintro rfl
    exact h hd
  have hoctal : octalDigit? c = none := by
    refine if_neg fun hc => h ?_
    exact List.mem_append_right "\nabfvxuU".toList hc
  unfold escapeKind unescape
  rw [hoctal, if_neg (hne (by decide))]
  by_cases hmark : c = '\\' ∨ c = '\'' ∨ c = '"'
  · refine .inl ⟨c, if_pos hmark, ?_⟩
    rcases hmark with rfl | rfl | rfl <;> rfl
  · rw [if_neg hmark, if_neg hmark, if_neg (hne (by decide)), if_neg (hne (by decide)),
      if_neg (hne (by decide))]
    by_cases hn : c = 'n'
    · exact .inl ⟨'\n', by simp [hn], if_pos hn⟩
    by_cases hr : c = 'r'
    · exact .inl ⟨'\r', by simp [hr], by simp [hr]⟩
    by_cases ht : c = 't'
    · exact .inl ⟨'\t', by simp [ht], by simp [ht]⟩
    · refine .inr ⟨?_, by simp [hn, hr, ht]⟩
      rw [if_neg hn, if_neg hr, if_neg ht, if_neg (hne (by decide)), if_neg (hne (by decide)),
        if_neg (hne (by decide)), if_neg (hne (by decide))]

/-- **Where no escape is left unread, the reading is the meaning.** -/
theorem meaning?_eq_reading {q : Char} {body : List Char} (h : LiteralBody q body)
    (hread : ∀ c ∈ escapeLetters body, c ∉ unreadLetters) :
    meaning? body = some ((reading body).map Char.toNat) := by
  unfold meaning?
  induction h with
  | nil => rfl
  | plain hc _ _ ih =>
    rw [escapeLetters_cons hc] at hread
    rw [Decoder.run, if_neg hc, ih hread, reading_cons hc]
    rfl
  | @escape c cs _ ih =>
    rw [escapeLetters_escape] at hread
    have hcs := ih fun d hd => hread d (by simp [hd])
    rw [Decoder.run, if_pos rfl, Decoder.run, reading_escape]
    rcases escapeKind_of_not_mem_unreadLetters (hread c (by simp)) with ⟨d, hk, hu⟩ | ⟨hk, hu⟩
    · rw [hk, hu, hcs]
      rfl
    · rw [hk, hu, hcs]
      rfl

/-! ## 4. Where they do not -/

/-- The code points that a state has still to give for what it has seen. -/
def Decoder.due : Decoder → Nat
  | .octal _ _ => 1
  | _ => 0

/-- How many escapes of a body are left unread. -/
def unreadCount (body : List Char) : Nat :=
  (escapeLetters body).countP fun c => decide (c ∈ unreadLetters)

theorem unreadCount_cons {c : Char} (hc : c ≠ '\\') (rest : List Char) :
    unreadCount (c :: rest) = unreadCount rest := by
  rw [unreadCount, escapeLetters_cons hc, unreadCount]

theorem unreadCount_escape (c : Char) (rest : List Char) :
    unreadCount ('\\' :: c :: rest) = unreadCount rest + if c ∈ unreadLetters then 1 else 0 := by
  rw [unreadCount, escapeLetters_escape, List.countP_cons, unreadCount]
  simp

/-- From a state on, the reading of a body has room for all that the state gives. -/
def Roomy (body : List Char) : Prop :=
  ∀ (state : Decoder) (codes : List Nat), state ≠ .backslash → state.run body = some codes →
    codes.length + unreadCount body ≤ (reading body).length + state.due

theorem roomy_nil : Roomy [] := by
  intro state codes hstate hrun
  cases state with
  | plain => cases hrun; decide
  | backslash => exact absurd rfl hstate
  | octal value left => cases hrun; exact Nat.le_refl 1
  | hex value left => cases hrun

theorem Decoder.due_le_one (state : Decoder) : state.due ≤ 1 := by
  cases state <;> simp [Decoder.due]

/-- A state in an escape gives one code point more than the reading has room for, at most. -/
theorem Roomy.length_le {rest : List Char} (h : Roomy rest) {state : Decoder} {codes : List Nat}
    (hstate : state ≠ .backslash) (hrun : state.run rest = some codes) :
    codes.length + unreadCount rest ≤ (reading rest).length + 1 := by
  have hroom := h state codes hstate hrun
  have hdue := state.due_le_one
  omega

/-- Code points before a body in plain text need the room that they take. -/
theorem Roomy.length_map_le {rest : List Char} (h : Roomy rest) {f : List Nat → List Nat} (n : Nat)
    (hf : ∀ codes, (f codes).length = codes.length + n) {codes : List Nat}
    (hrun : (Decoder.plain.run rest).map f = some codes) :
    codes.length + unreadCount rest ≤ (reading rest).length + n := by
  obtain ⟨more, hmore, rfl⟩ := Option.map_eq_some_iff.1 hrun
  have hroom : more.length + unreadCount rest ≤ (reading rest).length :=
    h .plain more (by simp) hmore
  rw [hf]
  omega

/-- A character that no backslash escapes is a code point of its own or a digit. -/
theorem Roomy.cons {c : Char} {rest : List Char} (hc : c ≠ '\\') (h : Roomy rest) :
    Roomy (c :: rest) := by
  intro state codes hstate hrun
  rw [unreadCount_cons hc, reading_cons hc, List.length_cons]
  cases state with
  | backslash => exact absurd rfl hstate
  | plain =>
    rw [Decoder.run, if_neg hc] at hrun
    exact h.length_map_le 1 (fun _ => rfl) hrun
  | octal value left =>
    rw [Decoder.run] at hrun
    split at hrun
    · have hroom := h.length_le (by simp) hrun
      omega
    · rw [if_neg hc] at hrun
      exact h.length_map_le 2 (fun _ => rfl) hrun
  | hex value left =>
    rw [Decoder.run] at hrun
    split at hrun
    · cases hrun
    split at hrun
    · exact h.length_le (by simp) hrun
    split at hrun
    · exact h.length_map_le 1 (fun _ => rfl) hrun
    · cases hrun

/-- After a backslash: an unread escape gives one code point at most and is kept as two. -/
theorem Roomy.backslash {c : Char} {rest : List Char} (h : Roomy rest) {codes : List Nat}
    (hrun : Decoder.backslash.run (c :: rest) = some codes) :
    codes.length + unreadCount ('\\' :: c :: rest) ≤ (reading ('\\' :: c :: rest)).length := by
  rw [unreadCount_escape, reading_escape, List.length_append]
  rw [Decoder.run] at hrun
  by_cases hc : c ∈ unreadLetters
  · obtain ⟨hu, hkept⟩ := unescape_of_mem_unreadLetters hc
    have htwo : (unescape c).length = 2 := by
      rw [hu]
      rfl
    rw [if_pos hc, htwo]
    suffices hroom : codes.length + unreadCount rest ≤ (reading rest).length + 1 by omega
    split at hrun
    · exact h.length_le (by simp) hrun
    · exact h.length_map_le 1 (fun _ => rfl) hrun
    · exact h.length_le (by simp) hrun
    · exact h.length_le (by simp) hrun
    · rename_i hk
      exact absurd hk hkept
  · rw [if_neg hc, Nat.add_comm (unescape c).length]
    rcases escapeKind_of_not_mem_unreadLetters hc with ⟨d, hk, hu⟩ | ⟨hk, hu⟩
    · rw [hk] at hrun
      rw [hu]
      exact h.length_map_le 1 (fun _ => rfl) hrun
    · rw [hk] at hrun
      rw [hu]
      exact h.length_map_le 2 (fun _ => rfl) hrun

/-- A backslash ends what a state has seen. -/
theorem Roomy.escape {c : Char} {rest : List Char} (h : Roomy rest) :
    Roomy ('\\' :: c :: rest) := by
  intro state codes hstate hrun
  cases state with
  | backslash => exact absurd rfl hstate
  | plain =>
    rw [Decoder.run, if_pos rfl] at hrun
    exact h.backslash hrun
  | octal value left =>
    have hdigit : (if 0 < left then octalDigit? '\\' else none) = none := by
      split <;> rfl
    rw [Decoder.run, hdigit] at hrun
    dsimp only at hrun
    rw [if_pos rfl] at hrun
    obtain ⟨more, hmore, rfl⟩ := Option.map_eq_some_iff.1 hrun
    have hroom := h.backslash hmore
    simp only [Decoder.due, List.length_cons]
    omega
  | hex value left =>
    have hdigit : Target.hexDigit? '\\' = none := by decide
    rw [Decoder.run, hdigit] at hrun
    cases hrun

/-- **Every unread escape makes the reading longer than the meaning.** -/
theorem roomy_of_literalBody {q : Char} {body : List Char} (h : LiteralBody q body) :
    Roomy body := by
  induction h with
  | nil => exact roomy_nil
  | plain hc _ _ ih => exact ih.cons hc
  | escape _ ih => exact ih.escape

/-- **The reading is the meaning exactly where no escape is left unread.** -/
theorem meaning?_eq_reading_iff {q : Char} {body : List Char} (h : LiteralBody q body) :
    meaning? body = some ((reading body).map Char.toNat) ↔
      ∀ c ∈ escapeLetters body, c ∉ unreadLetters := by
  constructor
  · intro hmeaning
    have hroom := roomy_of_literalBody h .plain _ (by simp) hmeaning
    simp only [List.length_map, Decoder.due] at hroom
    have hzero : unreadCount body = 0 := by omega
    intro c hc
    simpa using List.countP_eq_zero.1 hzero c hc
  · exact meaning?_eq_reading h

end Reading

/-! ## 5. The generated literal -/

namespace Target

/-- **Every literal compiles to a literal, which denotes the value of the first one exactly where
no escape is left unread.** -/
theorem compileExpr_literal (scope : Scope) {q : Char} {body : List Char} (hq : isQuote q = true)
    (hbody : LiteralBody q body) :
    ∃ value, (compileExpr scope (q :: (body ++ [q]))).map Code.print =
        .ok ("Value::from(".toList ++ quote value ++ ")".toList) ∧
      lex (quote value) = some [.text value] ∧
      (meaning? body = some (value.map Char.toNat) ↔
        ∀ c ∈ escapeLetters body, c ∉ unreadLetters) := by
  refine ⟨reading body, ?_, ?_, meaning?_eq_reading_iff hbody⟩
  · rw [compileExpr, Expr.read_literal hq hbody]
    change Except.ok (Code.text (reading body)).print = _
    rw [Code.print_text, call]
    simp
  · have hlex := lex_quote (reading body) wordEnd_nil
    rw [List.append_nil, lex_nil] at hlex
    exact hlex

/-- In the literal `"\'s\n\q"` two escapes are read, and the third is no escape of the language. -/
theorem compileExpr_literal_kept :
    isQuote '"' = true ∧ LiteralBody '"' ['\\', '\'', 's', '\\', 'n', '\\', 'q'] ∧
      ∃ value, (compileExpr ⟨[], []⟩ "\"\\'s\\n\\q\"".toList).map Code.print =
          .ok ("Value::from(".toList ++ quote value ++ ")".toList) ∧
        lex (quote value) = some [.text value] ∧
        meaning? ['\\', '\'', 's', '\\', 'n', '\\', 'q'] = some (value.map Char.toNat) := by
  have hbody : LiteralBody '"' ['\\', '\'', 's', '\\', 'n', '\\', 'q'] :=
    .escape <| .plain (by decide) (by decide) <| .escape <| .escape .nil
  have htext : "\"\\'s\\n\\q\"".toList =
      '"' :: (['\\', '\'', 's', '\\', 'n', '\\', 'q'] ++ ['"']) := by
    decide
  obtain ⟨value, hcode, hlex, hiff⟩ := compileExpr_literal ⟨[], []⟩ (q := '"') rfl hbody
  rw [htext]
  exact ⟨rfl, hbody, value, hcode, hlex, hiff.2 (forall_mem_of_all (by decide))⟩

/-- The literal `'\x41'` means a capital A and is compiled to a literal of four characters. -/
theorem compileExpr_literal_hex :
    LiteralBody '\'' ['\\', 'x', '4', '1'] ∧ meaning? ['\\', 'x', '4', '1'] = some ['A'.toNat] ∧
      (compileExpr ⟨[], []⟩ "'\\x41'".toList).map Code.print =
        .ok ("Value::from(".toList ++ quote "\\x41".toList ++ ")".toList) ∧
      lex (quote "\\x41".toList) = some [.text "\\x41".toList] := by
  have hbody : LiteralBody '\'' ['\\', 'x', '4', '1'] :=
    .escape <| .plain (by decide) (by decide) <| .plain (by decide) (by decide) .nil
  have htext : "'\\x41'".toList = '\'' :: (['\\', 'x', '4', '1'] ++ ['\'']) := by decide
  have hread : reading ['\\', 'x', '4', '1'] = "\\x41".toList := by decide
  refine ⟨hbody, by decide, ?_, ?_⟩
  · rw [htext, compileExpr, Expr.read_literal rfl hbody, hread]
    change Except.ok (Code.text "\\x41".toList).print = _
    rw [Code.print_text, call]
    simp
  · have hlex := lex_quote "\\x41".toList wordEnd_nil
    rw [List.append_nil, lex_nil] at hlex
    exact hlex

end Target

end TemplateCompiler
