import TemplateCompiler.Proofs.Target.Print
import TemplateCompiler.Proofs.Target.TermReading

/-! # Texts that are well typed

Generated code is put together as text.  This module carries what is known of tokens over to the
texts they come from: a text *lexes* to some tokens if it gives these wherever it may stand
(`Lexes`), and it is an operand, a chain or an expression if its tokens are.

There is one lemma for each way in which text is put together: a literal, a name, a mark before an
operand, an operator between two operands, a comment, and a call.  The last asks only that the
prelude declares the function (`declares`): a name in scope never hides one, since `bindingName`
keeps away from the names that are taken.
-/

namespace TemplateCompiler.Target

open Text

/-! ## 1. Tokens of a text -/

/-- What may follow a piece of code: nothing, a blank, a comma, a semicolon or the end of a
parenthesis. -/
def CodeEnd (rest : List Char) : Prop := ∀ c ∈ rest.head?, c = ' ' ∨ c = ',' ∨ c = ';' ∨ c = ')'

theorem codeEnd_nil : CodeEnd [] := by simp [CodeEnd]

theorem codeEnd_space (rest : List Char) : CodeEnd (' ' :: rest) := by simp [CodeEnd]

theorem codeEnd_comma (rest : List Char) : CodeEnd (',' :: rest) := by simp [CodeEnd]

theorem codeEnd_semicolon (rest : List Char) : CodeEnd (';' :: rest) := by simp [CodeEnd]

theorem codeEnd_paren (rest : List Char) : CodeEnd (')' :: rest) := by simp [CodeEnd]

theorem CodeEnd.nameEnd {rest : List Char} (h : CodeEnd rest) : NameEnd rest := by
  intro c hc
  rcases h c hc with rfl | rfl | rfl | rfl <;> decide

theorem CodeEnd.numberEnd {rest : List Char} (h : CodeEnd rest) : NumberEnd rest := by
  intro c hc
  rcases h c hc with rfl | rfl | rfl | rfl <;> decide

/-- The start of a text, up to `rest`, gives these tokens. -/
def Gives (cs : List Char) (ts : List Token) (rest : List Char) : Prop :=
  lex cs = (lex rest).map (ts ++ ·)

theorem gives_refl (rest : List Char) : Gives rest [] rest := by
  unfold Gives
  cases lex rest <;> rfl

theorem Gives.trans {cs mid rest : List Char} {ts us : List Token} (h : Gives cs ts mid)
    (h' : Gives mid us rest) : Gives cs (ts ++ us) rest := by
  unfold Gives at *
  rw [h, h']
  cases lex rest with
  | none => rfl
  | some vs => simp

/-- A text that gives these tokens wherever it may stand. -/
def Lexes (cs : List Char) (ts : List Token) : Prop :=
  ∀ rest, CodeEnd rest → Gives (cs ++ rest) ts rest

theorem gives_space (rest : List Char) : Gives (' ' :: rest) [] rest := by
  unfold Gives
  rw [lex_space]
  exact gives_refl rest

theorem gives_leftParen (rest : List Char) : Gives ('(' :: rest) [.symbol .leftParen] rest :=
  lex_symbol rfl rfl rfl rfl (by simp)

theorem gives_rightParen (rest : List Char) : Gives (')' :: rest) [.symbol .rightParen] rest :=
  lex_symbol rfl rfl rfl rfl (by simp)

theorem nameEnd_paren (rest : List Char) : NameEnd ('(' :: rest) := by
  simp [NameEnd, show isIdentChar '(' = false by decide]

theorem nameEnd_dot (rest : List Char) : NameEnd ('.' :: rest) := by
  simp [NameEnd, show isIdentChar '.' = false by decide]

theorem nameEnd_comma (rest : List Char) : NameEnd (',' :: rest) := by
  simp [NameEnd, show isIdentChar ',' = false by decide]

theorem gives_comma (rest : List Char) : Gives (',' :: ' ' :: rest) [.symbol .comma] rest := by
  have hcomma : Gives (',' :: ' ' :: rest) [.symbol .comma] (' ' :: rest) :=
    lex_symbol rfl rfl rfl rfl (by simp)
  exact hcomma.trans (gives_space rest)

/-- A point before a name. -/
theorem gives_dot {c : Char} (hc : isIdentStart c = true) (rest : List Char) :
    Gives ('.' :: c :: rest) [.symbol .dot] (c :: rest) := by
  have hne : '.' ≠ c := by
    rintro rfl
    exact absurd hc (by decide)
  refine lex_symbol rfl rfl rfl ?_ (Nat.le_refl _)
  simp [symbol?, symbols, List.isPrefixOf, hne]

theorem gives_word {w rest : List Char} (hw : isIdentifier w = true) (hrest : NameEnd rest) :
    Gives (w ++ rest) [.word w] rest :=
  lex_word hw hrest

/-! ## 2. Names -/

/-- A path, as it is written. -/
def pathText : List (List Char) → List Char
  | [] => []
  | w :: more => w ++ more.flatMap (':' :: ':' :: ·)

theorem gives_segments (more : List (List Char)) (h : ∀ v ∈ more, isIdentifier v = true)
    {rest : List Char} (hrest : NameEnd rest) :
    NameEnd (more.flatMap (':' :: ':' :: ·) ++ rest) ∧
      Gives (more.flatMap (':' :: ':' :: ·) ++ rest)
        (more.flatMap fun s => [.symbol .pathSeparator, .word s]) rest := by
  induction more with
  | nil => exact ⟨hrest, gives_refl rest⟩
  | cons w more ih =>
    obtain ⟨hend, hmore⟩ := ih fun v hv => h v (by simp [hv])
    refine ⟨by simp [NameEnd, show isIdentChar ':' = false by decide], ?_⟩
    have hword := gives_word (h w (by simp)) hend
    have hcolons : Gives (':' :: ':' :: (w ++ (more.flatMap (':' :: ':' :: ·) ++ rest)))
        [.symbol .pathSeparator] _ :=
      lex_symbol rfl rfl rfl rfl (by simp)
    simpa using (hcolons.trans hword).trans hmore

/-- **A path is read as its names.** -/
theorem gives_path {w : List Char} {more : List (List Char)}
    (h : ∀ v ∈ w :: more, isIdentifier v = true) {rest : List Char} (hrest : NameEnd rest) :
    Gives (pathText (w :: more) ++ rest) (pathTokens w more) rest := by
  obtain ⟨hend, hmore⟩ := gives_segments more (fun v hv => h v (by simp [hv])) hrest
  rw [pathText, List.append_assoc]
  exact (gives_word (h w (by simp)) hend).trans hmore

/-- **The name of a binding is one token**: the name, the name with an underscore, or the name as
a raw identifier. -/
theorem gives_bindingName {n : List Char} (hn : isIdentifier n = true) {rest : List Char}
    (hrest : NameEnd rest) : Gives (bindingName n ++ rest) [.word (bindingName n)] rest := by
  obtain ⟨c, more, rfl, hc⟩ := exists_cons_of_isIdentifier hn
  have hdigit : startsWithDigit (c :: more) = false := isDigit_of_isIdentStart hc
  unfold bindingName
  rw [hdigit]
  split
  · contradiction
  split
  · refine lex_word ?_ hrest
    have hmore := all_isIdentChar_of_isIdentifier hn
    simp only [List.all_cons, Bool.and_eq_true] at hmore
    simp [isIdentifier, hc, List.all_append, hmore.2, isIdentChar]
  split
  · exact lex_raw hn hrest.wordEnd
  · exact lex_word hn hrest

/-! ## 3. Names that are taken

A binding is never a word that is taken: where `bindingName` changes a name, the result ends in an
underscore, has a hash in it, or has a digit after its first character, and no such word does. -/

/-- The words that no binding may be: the keywords, and what generated code refers to. -/
def takenWords : List String := "__locals" :: keywordWords ++ reservedNames

/-- What tells a taken word from the names that `bindingName` makes. -/
theorem takenWords_shape : ∀ w ∈ takenWords,
    startsWithDigit (w.toList.drop 1) = false ∧
      (w.toList.getLast? = some '_' → w.toList = ['_']) ∧ '#' ∉ w.toList ∧
      (isReserved w.toList || "__".toList.isPrefixOf w.toList || isKeyword w.toList) = true := by
  decide +kernel

/-- **A binding is none of the words that are taken.** -/
theorem bindingName_ne {w : String} (hw : w ∈ takenWords) (n : List Char) :
    bindingName n ≠ w.toList := by
  obtain ⟨hdigit, hlast, hhash, htaken⟩ := takenWords_shape w hw
  intro h
  unfold bindingName at h
  split at h
  · rename_i hn
    rw [← h] at hdigit
    simp [hn] at hdigit
  split at h
  · rename_i hn
    rw [← h] at hlast
    obtain rfl : n = [] := by simpa using hlast (by simp)
    exact absurd hn (by decide)
  split at h
  · rw [← h] at hhash
    simp at hhash
  · rename_i hreserved hkeyword
    rw [← h] at htaken
    simp only [Bool.or_eq_true] at htaken hreserved
    exact htaken.elim hreserved hkeyword

theorem isKeywordWord_bindingName (n : List Char) : isKeywordWord (bindingName n) = false := by
  rw [isKeywordWord, List.any_eq_false]
  intro w hw
  rw [beq_iff_eq]
  exact (bindingName_ne (by simp [takenWords, hw]) n).symm

/-! ## 4. Operands and expressions -/

/-- A text that may stand right after a mark: the two together start no other symbol. -/
def AfterMark (cs : List Char) : Prop :=
  ∃ c rest, cs = c :: rest ∧ c ≠ '=' ∧ c ≠ '>' ∧ c ≠ '&'

theorem AfterMark.append {cs : List Char} (h : AfterMark cs) (more : List Char) :
    AfterMark (cs ++ more) := by
  obtain ⟨c, rest, rfl, hc⟩ := h
  exact ⟨c, rest ++ more, rfl, hc⟩

/-- A text that is an operand of a type. -/
def OperandText (env : Env) (cs : List Char) (ty : Ty) : Prop :=
  AfterMark cs ∧ ∃ ts, Lexes cs ts ∧ IsOperand env ts ty

/-- A text that is a chain. -/
def ChainText (P : Chain → Prop) (cs : List Char) : Prop := ∃ ts, Lexes cs ts ∧ IsChain P ts

/-- A text that is an expression of a type. -/
def ExprText (env : Env) (cs : List Char) (ty : Ty) : Prop := ∃ ts, Lexes cs ts ∧ IsExpr env ts ty

section
variable {env : Env} {cs ds : List Char} {ty : Ty} {P Q : Chain → Prop}

theorem OperandText.exprText (h : OperandText env cs ty) : ExprText env cs ty := by
  obtain ⟨-, ts, hlex, hts⟩ := h
  exact ⟨ts, hlex, hts.isExpr⟩

/-- An operand is a chain without operators. -/
theorem OperandText.chainText (h : OperandText env cs ty) :
    ChainText (fun c => c.Uniform env ty ∧ c.ops = []) cs := by
  obtain ⟨-, ts, hlex, hts⟩ := h
  refine ⟨ts, hlex, hts.isChain.mono fun c ⟨hfirst, hrest⟩ => ?_⟩
  obtain ⟨first, rest⟩ := c
  obtain rfl : rest = [] := hrest
  exact ⟨⟨hfirst, by simp [AllOf]⟩, rfl⟩

theorem ChainText.mono (hPQ : ∀ c, P c → Q c) (h : ChainText P cs) : ChainText Q cs := by
  obtain ⟨ts, hlex, hts⟩ := h
  exact ⟨ts, hlex, hts.mono hPQ⟩

/-- The text of a mark. -/
def Mark.char : Mark → Char
  | .minus => '-'
  | .not => '!'
  | .reference => '&'

theorem gives_mark (m : Mark) (h : AfterMark cs) : Gives (m.char :: cs) [m.token] cs := by
  obtain ⟨c, rest, rfl, heq, hgt, hand⟩ := h
  have heq := Ne.symm heq
  have hgt := Ne.symm hgt
  have hand := Ne.symm hand
  cases m with
  | minus =>
    refine lex_symbol rfl rfl rfl ?_ (Nat.le_refl _)
    simp [symbol?, symbols, List.isPrefixOf, heq, hgt, Mark.char]
    rfl
  | not =>
    refine lex_symbol rfl rfl rfl ?_ (Nat.le_refl _)
    simp [symbol?, symbols, List.isPrefixOf, heq, Mark.char]
    rfl
  | reference =>
    refine lex_symbol rfl rfl rfl ?_ (Nat.le_refl _)
    simp [symbol?, symbols, List.isPrefixOf, heq, hand, Mark.char]
    rfl

/-- A mark before an operand, wherever the two stand. -/
theorem Lexes.mark {ts : List Token} (h : Lexes cs ts) (m : Mark) (hcs : AfterMark cs) :
    Lexes (m.char :: cs) (m.token :: ts) := by
  intro rest hrest
  exact (gives_mark m (hcs.append rest)).trans (h rest hrest)

theorem OperandText.reference (h : OperandText env cs ty) :
    ExprText env ('&' :: cs) (.reference ty) := by
  obtain ⟨hcs, ts, hlex, hts⟩ := h
  exact ⟨_, hlex.mark .reference hcs, (hts.mark .reference rfl).isExpr⟩

/-- **A sign before an operand makes an operand.** -/
theorem OperandText.mark {ty' : Ty} (h : OperandText env cs ty) (m : Mark)
    (hm : m.type ty = some ty') (hne : m ≠ .reference) : OperandText env (m.char :: cs) ty' := by
  obtain ⟨hcs, ts, hlex, hts⟩ := h
  refine ⟨⟨m.char, cs, rfl, ?_⟩, _, hlex.mark m hcs, hts.mark m hm⟩
  cases m with
  | reference => exact absurd rfl hne
  | _ => decide

/-- A comment before a text leaves no token. -/
theorem Lexes.comment {ts : List Token} (h : Lexes cs ts) {note : List Char}
    (hnote : ∀ c ∈ note, c ≠ '*' ∧ c ≠ '/') :
    Lexes ('/' :: '*' :: (note ++ '*' :: '/' :: ' ' :: cs)) ts := by
  intro rest hrest
  have hcomment : Gives ('/' :: '*' :: (note ++ '*' :: '/' :: ' ' :: (cs ++ rest))) []
      (' ' :: (cs ++ rest)) := by
    unfold Gives
    rw [lex_comment hnote]
    exact gives_refl _
  have hall := (hcomment.trans (gives_space _)).trans (h rest hrest)
  simpa using hall

/-- A comment before an operand leaves it as it is. -/
theorem OperandText.comment {note : List Char} (hnote : ∀ c ∈ note, c ≠ '*' ∧ c ≠ '/')
    (h : OperandText env cs ty) :
    OperandText env ('/' :: '*' :: (note ++ '*' :: '/' :: ' ' :: cs)) ty := by
  obtain ⟨-, ts, hlex, hts⟩ := h
  exact ⟨⟨'/', _, rfl, by decide⟩, ts, hlex.comment hnote, hts⟩

/-- How a binary operator is written. -/
def Operator.text : Operator → List Char
  | .mul => ['*']
  | .div => ['/']
  | .rem => ['%']
  | .add => ['+']
  | .sub => ['-']
  | .xor => ['^']
  | .eq => ['=', '=']
  | .ne => ['!', '=']
  | .lt => ['<']
  | .le => ['<', '=']
  | .gt => ['>']
  | .ge => ['>', '=']
  | .and => ['&', '&']
  | .or => ['|', '|']

theorem gives_operator (op : Operator) (rest : List Char) :
    Gives (' ' :: (op.text ++ ' ' :: rest)) [.symbol (.operator op)] rest := by
  have hop : Gives (op.text ++ ' ' :: rest) [.symbol (.operator op)] (' ' :: rest) := by
    cases op <;> exact lex_symbol rfl rfl rfl rfl (by simp)
  exact ((gives_space _).trans hop).trans (gives_space rest)

/-- **A chain goes on with an operator and an operand.** -/
theorem ChainText.snoc (h : ChainText P cs) (op : Operator) (hd : OperandText env ds ty) :
    ChainText (fun c => ∃ d t, P d ∧ t.typeOf env = some ty ∧ c = d.snoc op t)
      (cs ++ ' ' :: (op.text ++ ' ' :: ds)) := by
  obtain ⟨ts, hlex, hts⟩ := h
  obtain ⟨-, us, hlex', hus⟩ := hd
  refine ⟨_, fun rest hrest => ?_, hts.snoc op hus⟩
  have hright := (gives_operator op (ds ++ rest)).trans (hlex' rest hrest)
  have hleft := hlex (' ' :: (op.text ++ ' ' :: (ds ++ rest))) (codeEnd_space _)
  simpa using hleft.trans hright

end

/-! ## 5. Literals and names -/

/-- A text that is one token, and an operand on its own. -/
theorem exprText_of_token {env : Env} {cs : List Char} {tok : Token} {t : Term} {ty : Ty}
    (hlex : ∀ rest, CodeEnd rest → Gives (cs ++ rest) [tok] rest) (ht : t.typeOf env = some ty)
    (h : operandOf? tok = some t) : ExprText env cs ty :=
  ⟨[tok], hlex, (IsOperand.of_token ht h).isExpr⟩

theorem exprText_quote (env : Env) (value : List Char) : ExprText env (quote value) .str :=
  exprText_of_token (t := .text value) (fun _ h => lex_quote value h.nameEnd.wordEnd) rfl rfl

theorem exprText_int (env : Env) {n : Nat} (hn : n < 0x8000000000000000) :
    ExprText env (Nat.toDigits 10 n) .int :=
  exprText_of_token (t := .int n) (fun _ h => lex_int n h.numberEnd) (by simp [Term.typeOf, hn]) rfl

theorem exprText_float (env : Env) {cs : List Char} (hcs : IsFloatText cs) :
    ExprText env cs .float :=
  exprText_of_token (t := .float cs) (fun _ h => lex_float hcs h.numberEnd) rfl rfl

theorem exprText_bool (env : Env) (value : Bool) :
    ExprText env (if value then "true".toList else "false".toList) .truth := by
  cases value with
  | true => exact exprText_of_token (t := .bool true) (fun _ h => lex_word (by decide) h.nameEnd) rfl rfl
  | false =>
    exact exprText_of_token (t := .bool false) (fun _ h => lex_word (by decide) h.nameEnd) rfl rfl

/-- A name may stand right after a mark. -/
theorem afterMark_of_isIdentStart {c : Char} (hc : isIdentStart c = true) (rest : List Char) :
    AfterMark (c :: rest) := by
  refine ⟨c, rest, rfl, ?_, ?_, ?_⟩ <;>
  · rintro rfl
    exact absurd hc (by decide)

theorem exists_cons_bindingName {n : List Char} (hn : isIdentifier n = true) :
    ∃ c more, bindingName n = c :: more ∧ isIdentStart c = true := by
  obtain ⟨c, more, rfl, hc⟩ := exists_cons_of_isIdentifier hn
  unfold bindingName
  split
  · exact ⟨'_', _, rfl, by decide⟩
  split
  · exact ⟨c, _, rfl, hc⟩
  split
  · exact ⟨'r', _, rfl, by decide⟩
  · exact ⟨c, _, rfl, hc⟩

/-- A path that is written with words that are no keywords. -/
def isPlainPath (path : List (List Char)) : Bool :=
  !path.isEmpty && path.all fun w => isIdentifier w && !isKeywordWord w

theorem exists_cons_of_isPlainPath {path : List (List Char)} (h : isPlainPath path = true) :
    ∃ w more, path = w :: more ∧ (∀ v ∈ w :: more, isIdentifier v = true) ∧
      ∀ v ∈ w :: more, isKeywordWord v = false := by
  cases path with
  | nil => cases h
  | cons w more =>
    simp only [isPlainPath, List.isEmpty_cons, Bool.not_false, Bool.true_and, List.all_eq_true,
      Bool.and_eq_true, Bool.not_eq_true'] at h
    exact ⟨w, more, rfl, fun v hv => (h v hv).1, fun v hv => (h v hv).2⟩

theorem afterMark_pathText {path : List (List Char)} (h : isPlainPath path = true) :
    AfterMark (pathText path) := by
  obtain ⟨w, more, rfl, hid, -⟩ := exists_cons_of_isPlainPath h
  obtain ⟨c, rest, rfl, hc⟩ := exists_cons_of_isIdentifier (hid w (by simp))
  exact afterMark_of_isIdentStart hc _

/-- A path with a type is an operand. -/
theorem operandText_path {env : Env} (path : List (List Char)) {ty : Ty}
    (h : isPlainPath path = true) (hty : env.pathType path = some ty) :
    OperandText env (pathText path) ty := by
  have hmark := afterMark_pathText h
  obtain ⟨w, more, rfl, hid, hkey⟩ := exists_cons_of_isPlainPath h
  exact ⟨hmark, pathTokens w more, fun rest hrest => gives_path hid hrest.nameEnd,
    isOperand_path hkey hty⟩

/-! ## 6. Calls -/

/-- Arguments of some types, as they are written. -/
inductive ArgumentsText (env : Env) : List Char → List Ty → Prop
  | one {cs : List Char} {ty : Ty} (h : ExprText env cs ty) : ArgumentsText env cs [ty]
  | cons {cs more : List Char} {ty : Ty} {types : List Ty} (h : ExprText env cs ty)
      (hmore : ArgumentsText env more types) :
      ArgumentsText env (cs ++ ',' :: ' ' :: more) (ty :: types)

/-- The tokens of arguments. -/
theorem ArgumentsText.lexes {env : Env} {cs : List Char} {types : List Ty}
    (h : ArgumentsText env cs types) :
    ∃ first rest ty more, types = ty :: more ∧ Lexes cs (argumentTokens first rest) ∧
      IsExpr env first ty ∧ AreExprs env rest more := by
  induction h with
  | @one cs ty h =>
    obtain ⟨ts, hlex, hts⟩ := h
    exact ⟨ts, [], ty, [], rfl, by simpa [argumentTokens] using hlex, hts, .nil⟩
  | @cons cs more ty types h _ ih =>
    obtain ⟨ts, hlex, hts⟩ := h
    obtain ⟨first, rest, ty', types', rfl, hlex', hfirst, hrest⟩ := ih
    refine ⟨ts, first :: rest, ty, ty' :: types', rfl, fun after hafter => ?_, hts,
      .cons hfirst hrest⟩
    have hright := (gives_comma (more ++ after)).trans (hlex' after hafter)
    have hleft := hlex (',' :: ' ' :: (more ++ after)) (codeEnd_comma _)
    simpa [argumentTokens] using hleft.trans hright

/-- Whether the prelude declares a function that takes arguments of these types. -/
def declares (f : String) (types : List Ty) (result : Ty) : Bool :=
  signatures.any fun s => f.toList == pathText s.path && fits s.parameters types && s.result == result

/-- The functions of the prelude have plain and different names that no binding can have. -/
theorem signatures_names : ∀ s ∈ signatures,
    isPlainPath s.path = true ∧ signatures.find? (·.path == s.path) = some s ∧
      (s.path.length = 1 → takenWords.any (fun w => s.path == [w.toList]) = true) := by
  decide +kernel

/-- **A name in scope hides no function.** -/
theorem callType_of_mem (scope : Scope) {s : Signature} (hs : s ∈ signatures) {types : List Ty}
    (hfits : fits s.parameters types = true) :
    scope.env.callType s.path types = some s.result := by
  obtain ⟨-, hfind, htaken⟩ := signatures_names s hs
  have hhidden : scope.env.bindings.any (s.path == [·]) = false := by
    rw [List.any_eq_false]
    intro b hb
    obtain ⟨n, -, rfl⟩ := List.mem_map.1 hb
    rw [beq_iff_eq]
    intro hpath
    obtain ⟨w, hw, heq⟩ := List.any_eq_true.1 (htaken (by rw [hpath]; rfl))
    rw [beq_iff_eq, hpath, List.singleton_inj] at heq
    exact bindingName_ne hw n heq
  rw [Env.callType, hhidden]
  simp [hfind, hfits]

/-- **A call of a declared function is an operand.** -/
theorem OperandText.call (scope : Scope) (f : String) (types : List Ty) (result : Ty)
    {args : List Char} (hf : declares f types result = true)
    (hargs : ArgumentsText scope.env args types) :
    OperandText scope.env (call f args) result := by
  obtain ⟨s, hs, hs'⟩ := List.any_eq_true.1 hf
  simp only [Bool.and_eq_true, beq_iff_eq] at hs'
  obtain ⟨⟨hname, hfits⟩, rfl⟩ := hs'
  have hcall := callType_of_mem scope hs hfits
  obtain ⟨hplain, -, -⟩ := signatures_names s hs
  have hmark := afterMark_pathText hplain
  obtain ⟨first, rest, ty, more, rfl, hlex, hfirst, hrest⟩ := hargs.lexes
  obtain ⟨w, path, hpath, hid, hkey⟩ := exists_cons_of_isPlainPath hplain
  rw [Target.call, hname]
  rw [hpath] at hcall hmark ⊢
  refine ⟨?_, callTokens w path (argumentTokens first rest), fun after hafter => ?_,
    isOperand_call hkey hcall hfirst hrest⟩
  · rw [List.append_assoc]
    exact hmark.append _
  · have hbefore := (gives_path hid (nameEnd_paren (args ++ ')' :: after))).trans
      (gives_leftParen _)
    have hwithin := (hlex _ (codeEnd_paren after)).trans (gives_rightParen after)
    simpa [callTokens] using hbefore.trans hwithin

/-! ## 7. Names in scope -/

/-- The names that bindings have leave those of the generated code alone. -/
theorem not_mem_bindings (scope : Scope) {w : String} (hw : w ∈ takenWords) :
    w.toList ∉ scope.env.bindings := by
  intro h
  obtain ⟨n, -, hn⟩ := List.mem_map.1 h
  exact bindingName_ne hw n hn

/-- A path that is no binding has the type that the prelude gives it. -/
theorem pathType_locals (scope : Scope) :
    scope.env.pathType ["__locals".toList] = some .locals := by
  have hhidden : scope.env.bindings.any (["__locals".toList] == [·]) = false := by
    rw [List.any_eq_false]
    intro b hb
    rw [beq_iff_eq, List.singleton_inj]
    rintro rfl
    exact not_mem_bindings scope (by simp [takenWords]) hb
  rw [Env.pathType, hhidden]
  rfl

theorem pathType_constructor (env : Env) {w : List Char}
    (hw : w = "Null".toList ∨ w = "Undefined".toList) :
    env.pathType ["Value".toList, w] = some .value := by
  have hhidden : env.bindings.any (["Value".toList, w] == [·]) = false := by
    rw [List.any_eq_false]
    intro b _
    simp
  rw [Env.pathType, hhidden]
  rcases hw with rfl | rfl <;> rfl

theorem pathType_bindingName (scope : Scope) {n : List Char} (hn : n ∈ scope.bound) :
    scope.env.pathType [bindingName n] = some .binding := by
  have hbound : scope.env.bindings.any ([bindingName n] == [·]) = true :=
    List.any_eq_true.2 ⟨bindingName n, List.mem_map_of_mem hn, by simp⟩
  rw [Env.pathType, hbound]
  rfl

/-- A name that is bound is an operand. -/
theorem operandText_bindingName (scope : Scope) {n : List Char} (hn : isIdentifier n = true)
    (hbound : n ∈ scope.bound) : OperandText scope.env (bindingName n) .binding := by
  have hmark : AfterMark (bindingName n) := by
    obtain ⟨c, more, h, hc⟩ := exists_cons_bindingName hn
    rw [h]
    exact afterMark_of_isIdentStart hc more
  refine ⟨hmark, pathTokens (bindingName n) [],
    fun rest hrest => gives_bindingName hn hrest.nameEnd, isOperand_path ?_
      (pathType_bindingName scope hbound)⟩
  intro v hv
  obtain rfl : v = bindingName n := by simpa using hv
  exact isKeywordWord_bindingName n

/-- The tokens of a copy of one of the input's fields. -/
def cloneTokens (field : List Char) : List Token :=
  [.word "context".toList, .symbol .dot, .word field, .symbol .dot, .word "clone".toList,
   .symbol .leftParen, .symbol .rightParen]

theorem isOperand_clone {env : Env} {field : List Char} (hkey : isKeywordWord field = false)
    (hfield : field ∈ env.fields) (hcontext : "context".toList ∉ env.bindings) :
    IsOperand env (cloneTokens field) .value := by
  refine ⟨[], .call (.field (.field (.path ["context".toList]) field) "clone".toList) [], ?_,
    fun p stack => ?_⟩
  · have hclone : env.cloneType ["context".toList] field "clone".toList = some .value := by
      rw [Env.cloneType, if_pos]
      simpa using ⟨hcontext, hfield⟩
    simp only [applyMarks, List.foldr_nil, Term.typeOf]
    exact hclone
  · have hname : ReadState.step
          { mode := .field (.path ["context".toList]), pending := p, stack } (.word field) =
        some { mode := .after (.field (.path ["context".toList]) field), pending := p, stack } := by
      simp [ReadState.step, ReadState.stepName, hkey]
    have hcontext : ReadState.run { mode := .operand, pending := p, stack }
          [.word "context".toList, .symbol .dot] =
        some { mode := .field (.path ["context".toList]), pending := p, stack } := rfl
    rw [show cloneTokens field = [.word "context".toList, .symbol .dot] ++ .word field ::
      [.symbol .dot, .word "clone".toList, .symbol .leftParen, .symbol .rightParen] from rfl,
      ReadState.run_append_of hcontext, ReadState.run_cons, hname, List.append_nil]
    rfl

/-- A copy of one of the input's fields, as it is written. -/
theorem lexes_clone {n : List Char} (hn : isIdentifier n = true) :
    Lexes ("context.".toList ++ bindingName n ++ ".clone()".toList)
      (cloneTokens (bindingName n)) := by
  intro rest _
  have hmethod : Gives (".clone()".toList ++ rest)
      [.symbol .dot, .word "clone".toList, .symbol .leftParen, .symbol .rightParen] rest := by
    have hword := gives_word (w := "clone".toList) (by decide) (nameEnd_paren (')' :: rest))
    have hparens := (gives_leftParen _).trans (gives_rightParen rest)
    exact (gives_dot (c := 'c') (by decide) _).trans (hword.trans hparens)
  have hname : Gives ('.' :: (bindingName n ++ (".clone()".toList ++ rest)))
      [.symbol .dot, .word (bindingName n)] (".clone()".toList ++ rest) := by
    have hword := gives_bindingName hn (nameEnd_dot ("clone()".toList ++ rest))
    obtain ⟨c, more, h, hc⟩ := exists_cons_bindingName hn
    rw [h] at hword ⊢
    exact (gives_dot hc _).trans hword
  have hcontext := gives_word (w := "context".toList) (by decide)
    (nameEnd_dot (bindingName n ++ (".clone()".toList ++ rest)))
  have htext : "context.".toList ++ bindingName n ++ ".clone()".toList ++ rest =
      "context".toList ++ '.' :: (bindingName n ++ (".clone()".toList ++ rest)) := by
    rw [List.append_assoc, List.append_assoc]
    rfl
  rw [htext]
  exact hcontext.trans (hname.trans hmethod)

/-- **A copy of one of the input's fields is an operand.** -/
theorem operandText_field (scope : Scope) {n : List Char} (hn : isIdentifier n = true)
    (hfield : n ∈ scope.fields) :
    OperandText scope.env ("context.".toList ++ bindingName n ++ ".clone()".toList) .value :=
  ⟨afterMark_of_isIdentStart (c := 'c') (by decide) _, cloneTokens (bindingName n),
    lexes_clone hn, isOperand_clone (isKeywordWord_bindingName n) (List.mem_map_of_mem hfield)
      (not_mem_bindings scope (by decide))⟩

end TemplateCompiler.Target
