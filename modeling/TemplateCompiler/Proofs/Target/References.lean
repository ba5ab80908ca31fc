import TemplateCompiler.Proofs.Target.Composition

/-! # The names that generated code refers to

Generated code takes the value of a template's name in two ways.  A call of `get_var` looks the name
up among the assignments and has a fallback for it, which is a local of the code or the missing
value; and a field of the input is read from `context`.  `references` finds both among the tokens of
a text, in order, and also any other use of the two words.

Main statement: the references of a lowered expression are the names of the expression, each with
what it means in the scope (`refOperand_lower`).  A part of a text has the same references wherever
it stands (`Refers`), since neither word can be the name of a binding.
-/

namespace TemplateCompiler.Target

open Text Reading

/-! ## 1. References of tokens -/

/-- A use of a template's name. -/
inductive Reference where
  /-- A look-up whose fallback is a local. -/
  | bound (name fallback : List Char)
  /-- A look-up without a fallback. -/
  | free (name : List Char)
  /-- A field of the input. -/
  | field (field : List Char)
  /-- Anything else that is done with `get_var` or with the input. -/
  | other
  deriving DecidableEq, Repr

def lookupWord : List Char := "get_var".toList

def inputWord : List Char := "context".toList

/-- What a look-up refers to, from after its first word. -/
def lookupReference : List Token → Reference
  | .symbol .leftParen :: .symbol .ampersand :: .word locals :: .symbol .comma :: .text name ::
      .symbol .comma :: .symbol .ampersand :: rest =>
    if locals = "__locals".toList then
      match rest with
      | .word x :: .symbol .rightParen :: _ => .bound name x
      | .word x :: .symbol .pathSeparator :: .word y :: .symbol .rightParen :: _ =>
        if x = "Value".toList ∧ y = "Undefined".toList then .free name else .other
      | _ => .other
    else .other
  | _ => .other

/-- What is taken from the input, from after its first word. -/
def inputReference : List Token → Reference
  | .symbol .dot :: .word f :: _ => .field f
  | _ => .other

/-- The reference that starts with this token. -/
def referenceAt? : Token → List Token → Option Reference
  | .word w, rest =>
    if w = lookupWord then some (lookupReference rest)
    else if w = inputWord then some (inputReference rest)
    else none
  | _, _ => none

/-- The references of tokens, in order. -/
def references : List Token → List Reference
  | [] => []
  | t :: rest => (referenceAt? t rest).toList ++ references rest

/-- Tokens that have these references wherever they stand. -/
def Refers (ts : List Token) (rs : List Reference) : Prop :=
  ∀ rest, references (ts ++ rest) = rs ++ references rest

/-- A token that starts no reference. -/
def Token.isPlain : Token → Bool
  | .word w => w != lookupWord && w != inputWord
  | _ => true

/-- Nothing is referred to at a token that is neither of the two words. -/
theorem referenceAt?_of_isPlain {t : Token} (h : t.isPlain = true) (rest : List Token) :
    referenceAt? t rest = none := by
  cases t with
  | word w =>
    simp only [Token.isPlain, Bool.and_eq_true, bne_iff_ne] at h
    simp [referenceAt?, h]
  | _ => rfl

/-- Tokens without the two words have no references. -/
theorem refers_of_isPlain {ts : List Token} (h : ts.all Token.isPlain = true) : Refers ts [] := by
  intro rest
  induction ts with
  | nil => rfl
  | cons t ts ih =>
    simp only [List.all_cons, Bool.and_eq_true] at h
    rw [List.cons_append, references, referenceAt?_of_isPlain h.1, ih h.2]
    rfl

/-- The references of two parts, in order. -/
theorem Refers.append {ts us : List Token} {rs ss : List Reference} (h : Refers ts rs)
    (h' : Refers us ss) : Refers (ts ++ us) (rs ++ ss) := by
  intro rest
  rw [List.append_assoc, h, h', List.append_assoc]

/-- A binding is neither of the two words. -/
theorem isPlain_bindingName (n : List Char) : (Token.word (bindingName n)).isPlain = true := by
  have hlookup : bindingName n ≠ lookupWord := bindingName_ne (w := "get_var") (by decide) n
  have hinput : bindingName n ≠ inputWord := bindingName_ne (w := "context") (by decide) n
  simp [Token.isPlain, hlookup, hinput]

/-- The tokens of a look-up, up to its fallback. -/
def lookupTokens (name : List Char) : List Token :=
  [.word lookupWord, .symbol .leftParen, .symbol .ampersand, .word "__locals".toList,
   .symbol .comma, .text name, .symbol .comma, .symbol .ampersand]

/-- A look-up is one reference; its own arguments are none. -/
theorem references_lookupTokens (name : List Char) (rest : List Token) :
    references (lookupTokens name ++ rest) =
      lookupReference ((lookupTokens name).tail ++ rest) :: references rest := by
  have hplain : Refers (lookupTokens name).tail [] := by
    refine refers_of_isPlain ?_
    simp only [lookupTokens, List.tail_cons, List.all_cons, Token.isPlain, List.all_nil]
    decide
  have hrest := hplain rest
  rw [List.nil_append] at hrest
  rw [← hrest]
  rfl

/-- A look-up with a local as its fallback. -/
theorem refers_bound (n : List Char) :
    Refers (lookupTokens n ++ [.word (bindingName n), .symbol .rightParen])
      [.bound n (bindingName n)] := by
  intro rest
  have hplain : Refers [.word (bindingName n), .symbol .rightParen] [] :=
    refers_of_isPlain (by simp [isPlain_bindingName]; rfl)
  rw [List.append_assoc, references_lookupTokens, hplain]
  rfl

/-- A look-up without a fallback. -/
theorem refers_free (n : List Char) :
    Refers (lookupTokens n ++ [.word "Value".toList, .symbol .pathSeparator,
      .word "Undefined".toList, .symbol .rightParen]) [.free n] := by
  intro rest
  have hplain : Refers [.word "Value".toList, .symbol .pathSeparator,
      .word "Undefined".toList, .symbol .rightParen] [] := refers_of_isPlain (by decide)
  rw [List.append_assoc, references_lookupTokens, hplain]
  rfl

/-- A field of the input. -/
theorem refers_field (n : List Char) :
    Refers (cloneTokens (bindingName n)) [.field (bindingName n)] := by
  intro rest
  have hplain : Refers (cloneTokens (bindingName n)).tail [] := by
    refine refers_of_isPlain ?_
    simp only [cloneTokens, List.tail_cons, List.all_cons, isPlain_bindingName]
    decide
  have hrest := hplain rest
  rw [List.nil_append] at hrest
  rw [List.singleton_append, ← hrest]
  rfl

/-! ## 2. References of texts -/

/-- A text that has these references wherever it stands. -/
def RefText (cs : List Char) (rs : List Reference) : Prop := ∃ ts, Lexes cs ts ∧ Refers ts rs

/-- A text of the same kind that may stand after a mark. -/
def RefOperand (cs : List Char) (rs : List Reference) : Prop := AfterMark cs ∧ RefText cs rs

/-- What a call starts with: words that are none of the two, and marks between them. -/
def HeadText (cs : List Char) : Prop :=
  ∃ ts : List Token, ts.all Token.isPlain = true ∧ ∀ rest, NameEnd rest → Gives (cs ++ rest) ts rest

section
variable {cs ds : List Char} {rs ss : List Reference}

/-- A text of one token. -/
theorem RefText.of_token {t : Token} (ht : t.isPlain = true)
    (h : ∀ rest, CodeEnd rest → Gives (cs ++ rest) [t] rest) : RefText cs [] :=
  ⟨[t], h, refers_of_isPlain (by simp [ht])⟩

/-- What is in a literal refers to nothing, even if it is one of the two words. -/
theorem refText_quote (value : List Char) : RefText (quote value) [] :=
  .of_token (t := .text value) rfl fun _ h => lex_quote value h.nameEnd.wordEnd

theorem refText_int (n : Nat) : RefText (Nat.toDigits 10 n) [] :=
  .of_token (t := .int n) rfl fun _ h => lex_int n h.numberEnd

theorem refText_float (h : IsFloatText cs) : RefText cs [] :=
  .of_token (t := .float cs) rfl fun _ hrest => lex_float h hrest.numberEnd

theorem refText_word {w : List Char} (hw : isIdentifier w = true)
    (hplain : (Token.word w).isPlain = true) : RefText w [] :=
  .of_token hplain fun _ h => gives_word hw h.nameEnd

/-- A path of words that are none of the two. -/
theorem headText_path (path : List (List Char)) (hpath : isPlainPath path = true)
    (hplain : path.all (fun w => (Token.word w).isPlain) = true) : HeadText (pathText path) := by
  obtain ⟨w, more, rfl, hid, -⟩ := exists_cons_of_isPlainPath hpath
  refine ⟨pathTokens w more, ?_, fun rest hrest => gives_path hid hrest⟩
  simp only [List.all_cons, Bool.and_eq_true, List.all_eq_true] at hplain
  simp only [pathTokens, List.all_cons, hplain.1, Bool.true_and, List.all_flatMap, List.all_eq_true]
  intro v hv
  rw [hplain.2 v hv]
  rfl

/-- Parentheses add nothing. -/
theorem RefText.inParens (hhead : HeadText ds) (h : RefText cs rs) :
    RefText (ds ++ '(' :: cs ++ [')']) rs := by
  obtain ⟨heads, hplain, hgives⟩ := hhead
  obtain ⟨ts, hlex, hts⟩ := h
  refine ⟨heads ++ ([.symbol .leftParen] ++ ts ++ [.symbol .rightParen]), fun rest _ => ?_, ?_⟩
  · have hopen := (hgives _ (nameEnd_paren (cs ++ ')' :: rest))).trans (gives_leftParen _)
    have hclose := (hlex _ (codeEnd_paren rest)).trans (gives_rightParen rest)
    simpa using hopen.trans hclose
  · have hparens : Refers ([.symbol .leftParen] ++ ts ++ [.symbol .rightParen]) ([] ++ rs ++ []) :=
      ((refers_of_isPlain rfl).append hts).append (refers_of_isPlain rfl)
    simpa using (refers_of_isPlain hplain).append hparens

/-- The functions of the prelude other than the look-up. -/
def isPlainCall (f : String) : Bool :=
  signatures.any fun s => f.toList == pathText s.path && s.path != [lookupWord]

/-- Of the functions that generated code calls, `get_var` is the only one that refers to names. -/
theorem isPlain_of_mem_signatures : ∀ s ∈ signatures,
    s.path ≠ [lookupWord] → s.path.all (fun w => (Token.word w).isPlain) = true := by
  decide +kernel

/-- **A call has the references of its arguments.** -/
theorem RefText.call {f : String} (hf : isPlainCall f = true) (h : RefText cs rs) :
    RefOperand (call f cs) rs := by
  obtain ⟨s, hs, hs'⟩ := List.any_eq_true.1 hf
  simp only [Bool.and_eq_true, beq_iff_eq, bne_iff_ne] at hs'
  obtain ⟨hpath, -, -⟩ := signatures_names s hs
  have hplain := isPlain_of_mem_signatures s hs hs'.2
  rw [Target.call, hs'.1]
  refine ⟨?_, .inParens (headText_path s.path hpath hplain) h⟩
  rw [List.append_assoc]
  exact (afterMark_pathText hpath).append _

/-- Nor do marks before an operand. -/
theorem RefOperand.mark (h : RefOperand cs rs) (m : Mark) : RefText (m.char :: cs) rs := by
  obtain ⟨hcs, ts, hlex, hts⟩ := h
  refine ⟨m.token :: ts, hlex.mark m hcs, ?_⟩
  have hmark : Refers [m.token] [] := refers_of_isPlain (by cases m <;> rfl)
  exact hmark.append hts

theorem RefOperand.reference (h : RefOperand cs rs) : RefText ('&' :: cs) rs := h.mark .reference

theorem RefOperand.sign (h : RefOperand cs rs) (m : Mark) (hm : m ≠ .reference) :
    RefOperand (m.char :: cs) rs := by
  refine ⟨⟨m.char, cs, rfl, ?_⟩, h.mark m⟩
  cases m with
  | reference => exact absurd rfl hm
  | _ => decide

/-- Arguments refer in the order in which they are written. -/
theorem RefText.comma (h : RefText cs rs) (h' : RefText ds ss) :
    RefText (cs ++ ", ".toList ++ ds) (rs ++ ss) := by
  obtain ⟨ts, hlex, hts⟩ := h
  obtain ⟨us, hlex', hus⟩ := h'
  refine ⟨ts ++ ([.symbol .comma] ++ us), fun rest hrest => ?_, ?_⟩
  · have hright := (gives_comma (ds ++ rest)).trans (hlex' rest hrest)
    simpa using (hlex (',' :: ' ' :: (ds ++ rest)) (codeEnd_comma _)).trans hright
  · have hcomma : Refers [.symbol .comma] [] := refers_of_isPlain rfl
    exact hts.append (hcomma.append hus)

/-- So do the operands of an operator. -/
theorem RefOperand.binary (h : RefOperand cs rs) (op : Operator) (h' : RefText ds ss) :
    RefOperand (cs ++ ' ' :: (op.text ++ ' ' :: ds)) (rs ++ ss) := by
  obtain ⟨hcs, ts, hlex, hts⟩ := h
  obtain ⟨us, hlex', hus⟩ := h'
  refine ⟨hcs.append _, ts ++ ([.symbol (.operator op)] ++ us), fun rest hrest => ?_, ?_⟩
  · have hright := (gives_operator op (ds ++ rest)).trans (hlex' rest hrest)
    have hleft := hlex (' ' :: (op.text ++ ' ' :: (ds ++ rest))) (codeEnd_space _)
    simpa using hleft.trans hright
  · have hop : Refers [.symbol (.operator op)] [] := refers_of_isPlain rfl
    exact hts.append (hop.append hus)

/-- A comment is no token, so what is written in it refers to nothing. -/
theorem RefOperand.comment {note : List Char} (hnote : ∀ c ∈ note, c ≠ '*' ∧ c ≠ '/')
    (h : RefOperand cs rs) : RefOperand ('/' :: '*' :: (note ++ '*' :: '/' :: ' ' :: cs)) rs := by
  obtain ⟨-, ts, hlex, hts⟩ := h
  exact ⟨⟨'/', _, rfl, by decide⟩, ts, hlex.comment hnote, hts⟩

end

/-! ## 3. References of expressions -/

/-- The names at the leaves of an expression. -/
def nameContents : Contents (List Char) :=
  { constant := fun _ => [], name := fun n => [n], prop := fun _ => [] }

/-- The names of an expression, in the order in which code for it refers to them. -/
def namesOf (e : Expr) : List (List Char) := nameContents.of e

/-- What a name refers to in a scope. -/
def Scope.reference (scope : Scope) (n : List Char) : Reference :=
  if scope.bound.contains n then .bound n (bindingName n)
  else if scope.fields.contains n then .field (bindingName n)
  else .free n

variable {scope : Scope}

/-- The text of a look-up, up to its fallback. -/
theorem gives_lookup (n : List Char) {rest : List Char} (h : AfterMark rest) :
    Gives (lookupWord ++ '(' :: '&' :: ("__locals".toList ++ ',' :: ' ' ::
      (quote n ++ ',' :: ' ' :: '&' :: rest))) (lookupTokens n) rest := by
  have hword := gives_word (w := lookupWord) (by decide) (nameEnd_paren ('&' ::
    ("__locals".toList ++ ',' :: ' ' :: (quote n ++ ',' :: ' ' :: '&' :: rest))))
  have hlocals : AfterMark ("__locals".toList ++ ',' :: ' ' ::
      (quote n ++ ',' :: ' ' :: '&' :: rest)) :=
    afterMark_of_isIdentStart (c := '_') (by decide) _
  have hopen := (gives_leftParen _).trans (gives_mark .reference hlocals)
  have hname := (gives_word (w := "__locals".toList) (by decide)
    (nameEnd_comma (' ' :: (quote n ++ ',' :: ' ' :: '&' :: rest)))).trans (gives_comma _)
  have hquote : Gives (quote n ++ (',' :: ' ' :: '&' :: rest)) [.text n]
      (',' :: ' ' :: '&' :: rest) := lex_quote n (nameEnd_comma _).wordEnd
  have hlast := (gives_comma ('&' :: rest)).trans (gives_mark .reference h)
  exact hword.trans (hopen.trans (hname.trans (hquote.trans hlast)))

/-- A look-up with a fallback. -/
theorem refOperand_lookup {n fallback : List Char} {ts : List Token} {rs : List Reference}
    (hmark : AfterMark fallback) (hlex : Lexes fallback ts)
    (hrefers : Refers (lookupTokens n ++ (ts ++ [.symbol .rightParen])) rs) :
    RefOperand (call "get_var" ("&__locals, ".toList ++ quote n ++ ", &".toList ++ fallback))
      rs := by
  refine ⟨afterMark_of_isIdentStart (c := 'g') (by decide) _, _, fun rest hrest => ?_, hrefers⟩
  have hfallback := (hlex _ (codeEnd_paren rest)).trans (gives_rightParen rest)
  have hall := (gives_lookup n (hmark.append (')' :: rest))).trans hfallback
  have htext : call "get_var" ("&__locals, ".toList ++ quote n ++ ", &".toList ++ fallback) ++
      rest = lookupWord ++ '(' :: '&' :: ("__locals".toList ++ ',' :: ' ' ::
        (quote n ++ ',' :: ' ' :: '&' :: (fallback ++ ')' :: rest))) := by
    simp only [call, List.append_assoc, List.cons_append]
    rfl
  rw [htext]
  exact hall

/-- **A name has one reference, whatever it means.** -/
theorem refOperand_resolve {n : List Char} (hn : isIdentifier n = true) :
    RefOperand (scope.resolve n).print [scope.reference n] := by
  unfold Scope.resolve Scope.reference
  split
  · have hmark : AfterMark (bindingName n) := by
      obtain ⟨c, more, h, hc⟩ := exists_cons_bindingName hn
      rw [h]
      exact afterMark_of_isIdentStart hc more
    exact refOperand_lookup hmark (fun rest hrest => gives_bindingName hn hrest.nameEnd)
      (refers_bound n)
  split
  · exact ⟨afterMark_of_isIdentStart (c := 'c') (by decide) _, _, lexes_clone hn, refers_field n⟩
  · have hpath : isPlainPath ["Value".toList, "Undefined".toList] = true := by decide
    have h := refOperand_lookup (n := n) (afterMark_pathText hpath)
      (fun rest hrest => gives_path (by decide) hrest.nameEnd) (refers_free n)
    rwa [List.append_assoc] at h

theorem isPlainCall_of_mem_loweredCalls : ∀ f ∈ loweredCalls, isPlainCall f = true := by
  decide +kernel

/-- The name of an attribute is a literal and no reference. -/
theorem RefOperand.prop {cs : List Char} {rs : List Reference} (h : RefOperand cs rs)
    (name : List Char) :
    RefOperand (call "get_prop" ('&' :: cs ++ ", ".toList ++ quote name)) rs := by
  have hargs := h.reference.comma (refText_quote name)
  rw [List.append_nil] at hargs
  exact hargs.call (by decide +kernel)

theorem refOperand_null : RefOperand "Value::Null".toList [] := by
  have hpath : isPlainPath ["Value".toList, "Null".toList] = true := rfl
  obtain ⟨ts, hplain, hgives⟩ := headText_path _ hpath rfl
  exact ⟨afterMark_pathText hpath, ts, fun rest hrest => hgives rest hrest.nameEnd,
    refers_of_isPlain hplain⟩

/-- Every way of writing code keeps the references of its parts in their order. -/
theorem composes_refers (scope : Scope) :
    Composes (nameContents.map scope.reference) scope RefText RefOperand where
  ofOperand h := h.2
  digits n := refText_int n
  number h := refText_float h
  truthValue b := by
    cases b with
    | true => exact refText_word (w := "true".toList) (by decide) (by decide)
    | false => exact refText_word (w := "false".toList) (by decide) (by decide)
  null := refOperand_null
  constant value := (refText_quote value).call (by decide +kernel)
  name hn := refOperand_resolve hn
  prop n h := by
    rw [show (nameContents.map scope.reference).prop n = [] from rfl, List.append_nil]
    exact h.prop n
  call hf h := h.call (isPlainCall_of_mem_loweredCalls _ hf)
  reference h := h.reference
  comma h h' := h.comma h'
  sign hc h := by
    rcases hc with rfl | rfl
    · exact h.sign .minus (by decide)
    · exact h.sign .not (by decide)
  operator op h h' := h.binary op h'
  note hf h := h.comment (ne_of_mem_note hf)

/-- **The references of a lowered expression are the names of the expression.** -/
theorem refOperand_lower {form : Form} {e : Expr} (h : Shaped form e) :
    RefOperand (lower scope e).print ((namesOf e).map scope.reference) := by
  have hlower := (composes_refers scope).lower h
  rwa [Contents.of_map] at hlower

end TemplateCompiler.Target
