import TemplateCompiler.Proofs.Outcome
import TemplateCompiler.Proofs.Target.References
import TemplateCompiler.Proofs.Template.WellFormed
import TemplateCompiler.Target.Renderer

/-! # Generated code refers to names that it binds

A template's name is looked up with a local as its fallback if a loop around it binds the name, and
otherwise it is a field of the input or has no fallback.  The compiler decides this by a scope of
its own, which grows on the way into a loop.  Here the scope is compared with the blocks of the
code as it is written: line by line, a brace at the end of a line opens a block, one at its start
closes a block, and a line that starts with `let` binds a name in the block that it stands in.

`uses` goes over the lines of a body and collects the references, each with the blocks that are open
around it.  Main statement: the references are those of the template's names in order, a name having
a local as its fallback exactly inside the loops that bind it, and each such local is bound by a
line of an open loop (`references_resolved`).
-/

namespace TemplateCompiler.Target

open Text Reading Template

/-! ## 1. Lines and blocks -/

/-- A block that is open at some place, with the line that opened it and the lines that stand in it
before the place. -/
structure OpenBraces where
  header : Line
  lines : List Line

/-- Whether a block belongs to a loop. -/
def OpenBraces.isLoop (b : OpenBraces) : Bool := "for ".toList.isPrefixOf b.header.text

namespace Line

def opens (l : Line) : Bool := l.text.getLast? == some '{'

def closes (l : Line) : Bool := l.text.head? == some '}'

/-- Whether a line introduces a local. -/
def Binds (l : Line) (x : List Char) : Prop := ("let ".toList ++ x ++ " = ".toList) <+: l.text

/-- Whether a line binds a loop variable.  Such a line refers to nothing, whatever the name of the
variable is. -/
def isElement (l : Line) : Bool :=
  "let ".toList.isPrefixOf l.text && " = __items[__i].clone();".toList.isSuffixOf l.text

/-- The references of a line, if it can be read. -/
def references (l : Line) : Option (List Reference) :=
  if l.isElement then some [] else (lex l.text).map Target.references

/-- The blocks around what a line computes. -/
def around (l : Line) (blocks : List OpenBraces) : List OpenBraces :=
  if l.closes then blocks.tail else blocks

end Line

/-- Adds lines to the innermost block. -/
def addLines (ls : List Line) : List OpenBraces → List OpenBraces
  | [] => []
  | b :: rest => { b with lines := b.lines ++ ls } :: rest

/-- The open blocks after a line. -/
def blocksAfter (blocks : List OpenBraces) (l : Line) : List OpenBraces :=
  if l.opens then ⟨l, []⟩ :: l.around blocks else addLines [l] (l.around blocks)

/-- A reference and the blocks around it. -/
structure Use where
  reference : Reference
  blocks : List OpenBraces

/-- The references of lines, in order, if all lines can be read. -/
def uses (blocks : List OpenBraces) : List Line → Option (List Use)
  | [] => some []
  | l :: rest => do
    let rs ← l.references
    let more ← uses (blocksAfter blocks l) rest
    return rs.map (⟨·, l.around blocks⟩) ++ more

/-- The line that declares a field of the input. -/
def fieldLine (field : List Char) : Line := ⟨1, "pub ".toList ++ field ++ ": Value,".toList⟩

/-- A local that is used is bound in a loop around it, and a field that is used is declared. -/
structure Use.Resolved (fields : List (List Char)) (u : Use) : Prop where
  bound : ∀ n x, u.reference = .bound n x →
    ∃ b ∈ u.blocks, b.isLoop = true ∧ ∃ l ∈ b.lines, l.Binds x
  field : ∀ f, u.reference = .field f → fieldLine f ∈ contextLines fields

/-! ## 2. Reading lines -/

/-- Every name of a scope is bound in an open loop. -/
def Covers (blocks : List OpenBraces) (bound : List (List Char)) : Prop :=
  ∀ n ∈ bound, ∃ b ∈ blocks, b.isLoop = true ∧ ∃ l ∈ b.lines, l.Binds (bindingName n)

/-- Lines that have these references, all resolved, and that lead to these open blocks. -/
def ReadsTo (fields : List (List Char)) (blocks : List OpenBraces) (ls : List Line)
    (rs : List Reference) (blocks' : List OpenBraces) : Prop :=
  ∃ us, (∀ rest, uses blocks (ls ++ rest) = (uses blocks' rest).map (us ++ ·)) ∧
    us.map Use.reference = rs ∧ ∀ u ∈ us, u.Resolved fields

section
variable {fields bound : List (List Char)} {blocks blocks₁ blocks₂ : List OpenBraces}
  {ls ls' : List Line} {rs rs' : List Reference}

theorem addLines_addLines (ls ls' : List Line) (blocks : List OpenBraces) :
    addLines ls' (addLines ls blocks) = addLines (ls ++ ls') blocks := by
  cases blocks with
  | nil => rfl
  | cons b rest => simp [addLines]

theorem addLines_nil (blocks : List OpenBraces) : addLines [] blocks = blocks := by
  cases blocks with
  | nil => rfl
  | cons b rest => simp [addLines]

theorem Covers.addLines (h : Covers blocks bound) (ls : List Line) :
    Covers (addLines ls blocks) bound := by
  intro n hn
  obtain ⟨b, hb, hloop, l, hl, hbinds⟩ := h n hn
  cases blocks with
  | nil => cases hb
  | cons first rest =>
    rcases List.mem_cons.1 hb with rfl | hb
    · exact ⟨_, List.mem_cons_self .., hloop, l, List.mem_append_left _ hl, hbinds⟩
    · exact ⟨b, List.mem_cons_of_mem _ hb, hloop, l, hl, hbinds⟩

theorem Covers.cons (h : Covers blocks bound) (b : OpenBraces) : Covers (b :: blocks) bound := by
  intro n hn
  obtain ⟨b', hb', hrest⟩ := h n hn
  exact ⟨b', List.mem_cons_of_mem _ hb', hrest⟩

theorem readsTo_nil (fields : List (List Char)) (blocks : List OpenBraces) :
    ReadsTo fields blocks [] [] blocks := by
  refine ⟨[], fun rest => ?_, rfl, by simp⟩
  cases h : uses blocks rest <;> simp [h]

theorem ReadsTo.append (h : ReadsTo fields blocks ls rs blocks₁)
    (h' : ReadsTo fields blocks₁ ls' rs' blocks₂) :
    ReadsTo fields blocks (ls ++ ls') (rs ++ rs') blocks₂ := by
  obtain ⟨us, hus, rfl, hresolved⟩ := h
  obtain ⟨us', hus', rfl, hresolved'⟩ := h'
  refine ⟨us ++ us', fun rest => ?_, List.map_append, fun u hu => ?_⟩
  · rw [List.append_assoc, hus, hus']
    cases uses blocks₂ rest <;> simp
  · rcases List.mem_append.1 hu with hu | hu
    · exact hresolved u hu
    · exact hresolved' u hu

/-- One line. -/
theorem ReadsTo.of_line {l : Line} (h : l.references = some rs)
    (hresolved : ∀ r ∈ rs, (Use.mk r (l.around blocks)).Resolved fields) :
    ReadsTo fields blocks [l] rs (blocksAfter blocks l) := by
  refine ⟨rs.map (⟨·, l.around blocks⟩), fun rest => ?_, by simp [Function.comp_def],
    fun u hu => ?_⟩
  · rw [List.singleton_append, uses, h]
    cases uses (blocksAfter blocks l) rest <;> rfl
  · obtain ⟨r, hr, rfl⟩ := List.mem_map.1 hu
    exact hresolved r hr

/-- The names of a scope are resolved where its bindings are visible. -/
theorem resolved_reference {scope : Scope} (h : Covers blocks scope.bound) (n : List Char) :
    (Use.mk (scope.reference n) blocks).Resolved scope.fields := by
  unfold Scope.reference
  split
  · rename_i hn
    refine ⟨fun m x heq => ?_, by simp⟩
    cases heq
    exact h n (by simpa using hn)
  split
  · rename_i hn
    refine ⟨by simp, fun f heq => ?_⟩
    cases heq
    have hmem : fieldLine (bindingName n) ∈ (scope.fields.map bindingName).map
        (fun x => ⟨1, "pub ".toList ++ x ++ ": Value,".toList⟩) :=
      List.mem_map_of_mem (List.mem_map_of_mem (by simpa using hn))
    exact List.mem_append_left _ (List.mem_append_right _ hmem)
  · exact ⟨by simp, by simp⟩

end

/-! ## 3. The texts of lines -/

/-- A text that can be read as a line with these references. -/
def RefLine (cs : List Char) (rs : List Reference) : Prop :=
  ∃ ts, lex cs = some ts ∧ Target.references ts = rs

/-- The start of a line: words and marks that refer to nothing, with a blank at the end. -/
def StartsLine (cs : List Char) : Prop :=
  ∃ ts : List Token, ts.all Token.isPlain = true ∧ ∀ rest, Gives (cs ++ rest) ts rest

section
variable {cs ds : List Char} {rs : List Reference}

theorem nameEnd_space (rest : List Char) : NameEnd (' ' :: rest) := by
  simp [NameEnd, show isIdentChar ' ' = false by decide]

theorem startsLine_nil : StartsLine [] := ⟨[], rfl, gives_refl⟩

theorem startsLine_let {w : List Char} (hw : isIdentifier w = true)
    (hplain : (Token.word w).isPlain = true) :
    StartsLine ("let ".toList ++ w ++ " = ".toList) := by
  refine ⟨[.word "let".toList, .word w, .symbol (.other ['='])], ?_, fun rest => ?_⟩
  · simp only [List.all_cons, hplain]
    decide
  · have hlet : Gives ("let".toList ++ ' ' :: (w ++ ' ' :: '=' :: ' ' :: rest)) _ _ :=
      (gives_word (by decide) (nameEnd_space _)).trans (gives_space _)
    have hword := (gives_word hw (nameEnd_space ('=' :: ' ' :: rest))).trans (gives_space _)
    have hequals : Gives ('=' :: ' ' :: rest) [.symbol (.other ['='])] (' ' :: rest) :=
      lex_symbol rfl rfl rfl rfl (by simp)
    have hall := hlet.trans (hword.trans (hequals.trans (gives_space rest)))
    rw [List.append_assoc, List.append_assoc]
    exact hall

theorem startsLine_if : StartsLine "if ".toList :=
  ⟨[.word "if".toList], by decide, fun _ =>
    (gives_word (w := "if".toList) (by decide) (nameEnd_space _)).trans (gives_space _)⟩

theorem startsLine_elseIf : StartsLine "\x7d else if ".toList := by
  refine ⟨[.symbol (.other ['}']), .word "else".toList, .word "if".toList], by decide,
    fun rest => ?_⟩
  have hbrace : Gives ('}' :: ' ' :: ("else".toList ++ ' ' :: ("if".toList ++ ' ' :: rest)))
      [.symbol (.other ['}'])] _ := lex_symbol rfl rfl rfl rfl (by simp)
  have helse := (gives_word (w := "else".toList) (by decide)
    (nameEnd_space ("if".toList ++ ' ' :: rest))).trans (gives_space _)
  have hif := (gives_word (w := "if".toList) (by decide) (nameEnd_space rest)).trans
    (gives_space rest)
  exact (hbrace.trans (gives_space _)).trans (helse.trans hif)

/-- A line of code with its start and its end. -/
theorem RefText.line {ends : List Char} {t : Token} (h : RefText cs rs) (hstart : StartsLine ds)
    (hcode : CodeEnd ends) (hends : Gives ends [t] []) (ht : t.isPlain = true) :
    RefLine (ds ++ cs ++ ends) rs := by
  obtain ⟨us, hplain, hgives⟩ := hstart
  obtain ⟨ts, hlex, hts⟩ := h
  have hall : Gives (ds ++ cs ++ ends) (us ++ (ts ++ [t])) [] := by
    rw [List.append_assoc]
    exact (hgives _).trans ((hlex _ hcode).trans hends)
  refine ⟨us ++ (ts ++ [t]), by simpa [Gives] using hall, ?_⟩
  have hlast : Refers [t] [] := refers_of_isPlain (by simp [ht])
  have hrefers := (refers_of_isPlain hplain).append (hts.append hlast)
  simpa [Target.references] using hrefers []

theorem RefText.statement (h : RefText cs rs) (hstart : StartsLine ds) :
    RefLine (ds ++ cs ++ [';']) rs :=
  h.line hstart (codeEnd_semicolon _) (lex_symbol rfl rfl rfl rfl (by simp)) rfl

/-- A condition and the brace that opens its block. -/
theorem RefText.condition (h : RefText cs rs) (hstart : StartsLine ds) :
    RefLine (ds ++ cs ++ [' ', '{']) rs :=
  h.line hstart (codeEnd_space _)
    ((gives_space _).trans (lex_symbol rfl rfl rfl rfl (by simp))) rfl

/-- A method of a local. -/
theorem headText_method {w f : List Char} (hw : isIdentifier w = true)
    (hf : isIdentifier f = true) (hplain : [Token.word w, .word f].all Token.isPlain = true) :
    HeadText (w ++ '.' :: f) := by
  simp only [List.all_cons, Bool.and_eq_true] at hplain
  refine ⟨[.word w, .symbol .dot, .word f], by simp [hplain]; rfl, fun rest hrest => ?_⟩
  have hword := gives_word hw (nameEnd_dot (f ++ rest))
  have hmethod := gives_word hf hrest
  obtain ⟨c, more, rfl, hc⟩ := exists_cons_of_isIdentifier hf
  rw [List.append_assoc]
  exact hword.trans ((gives_dot hc _).trans hmethod)

theorem refLine_pushText (text : List Char) :
    RefLine ("__out.push_str(".toList ++ quote text ++ ");".toList) [] := by
  have hhead : HeadText ("__out".toList ++ '.' :: "push_str".toList) :=
    headText_method (by decide) (by decide) (by decide)
  have h := ((refText_quote text).inParens hhead).statement startsLine_nil
  simp only [List.append_assoc, List.nil_append] at h ⊢
  exact h

theorem refLine_pushValue {value : Code} (h : RefOperand value.print rs) :
    RefLine ("__out.push_str(&to_string_safe(&".toList ++ value.print ++ "));".toList) rs := by
  have hhead : HeadText ("__out".toList ++ '.' :: "push_str".toList) :=
    headText_method (by decide) (by decide) (by decide)
  have hsafe : RefOperand (call "to_string_safe" ('&' :: value.print)) rs :=
    h.reference.call (by decide +kernel)
  have h := (hsafe.reference.inParens hhead).statement startsLine_nil
  simp only [call, List.append_assoc, List.nil_append, List.cons_append] at h ⊢
  exact h

theorem refText_removal (name : List Char) :
    RefText ("__locals".toList ++ '.' :: "remove".toList ++ '(' :: quote name ++ [')']) [] := by
  have hhead : HeadText ("__locals".toList ++ '.' :: "remove".toList) :=
    headText_method (by decide) (by decide) (by decide)
  exact (refText_quote name).inParens hhead

theorem refLine_removal (name : List Char) : RefLine (removal name) [] := by
  have h := (refText_removal name).statement startsLine_nil
  change RefLine ("__locals.remove(".toList ++ quote name ++ ");".toList) []
  simp only [List.append_assoc, List.nil_append] at h ⊢
  exact h

theorem refLine_letShadowed (name : List Char) :
    RefLine ("let __shadowed = ".toList ++ removal name) [] := by
  have hstart : StartsLine ("let ".toList ++ "__shadowed".toList ++ " = ".toList) :=
    startsLine_let (by decide) (by decide)
  have h := (refText_removal name).statement hstart
  change RefLine ("let __shadowed = ".toList ++
    ("__locals.remove(".toList ++ quote name ++ ");".toList)) []
  simp only [List.append_assoc] at h ⊢
  exact h

theorem refLine_letItems {value : Code} (h : RefOperand value.print rs) :
    RefLine ("let __items = as_list(&".toList ++ value.print ++ ");".toList) rs := by
  have hstart : StartsLine ("let ".toList ++ "__items".toList ++ " = ".toList) :=
    startsLine_let (by decide) (by decide)
  have h := (h.reference.inParens (headText_path ["as_list".toList] rfl rfl)).statement hstart
  simp only [pathText, List.flatMap_nil, List.append_assoc, List.nil_append,
    List.cons_append] at h ⊢
  exact h

theorem refLine_insertion (name : List Char) {value : List Char} (h : RefText value rs) :
    RefLine (insertion name value) rs := by
  have hhead : HeadText ("__locals".toList ++ '.' :: "insert".toList) :=
    headText_method (by decide) (by decide) (by decide)
  have hkey : RefText (quote name ++ ".to_string()".toList) [] := by
    refine ⟨[.text name, .symbol .dot, .word "to_string".toList, .symbol .leftParen,
      .symbol .rightParen], fun rest _ => ?_, refers_of_isPlain rfl⟩
    have hquote : Gives (quote name ++ '.' :: ("to_string".toList ++ '(' :: ')' :: rest))
        [.text name] _ := lex_quote name (nameEnd_dot _).wordEnd
    have hdot := gives_dot (c := 't') (by decide) ("o_string".toList ++ '(' :: ')' :: rest)
    have hword := gives_word (w := "to_string".toList) (by decide) (nameEnd_paren (')' :: rest))
    have hparens := (gives_leftParen _).trans (gives_rightParen rest)
    rw [List.append_assoc]
    exact hquote.trans (hdot.trans (hword.trans hparens))
  have h := ((hkey.comma h).inParens hhead).statement startsLine_nil
  change RefLine ("__locals.insert(".toList ++ quote name ++ ".to_string(), ".toList ++ value ++
    ");".toList) rs
  simp only [List.append_assoc, List.nil_append, List.cons_append] at h ⊢
  exact h

end

/-! ## 4. Lines and blocks in a scope -/

/-- Lines that have these references wherever the names of the scope are bound, and that leave the
open blocks as they are but for their own lines. -/
def Scoped (scope : Scope) (ls : List Line) (rs : List Reference) : Prop :=
  ∀ blocks, Covers blocks scope.bound →
    ∃ added, ReadsTo scope.fields blocks ls rs (addLines added blocks)

section
variable {scope : Scope} {blocks : List OpenBraces} {l : Line} {ls ls' : List Line}
  {names : List (List Char)} {rs rs' : List Reference}

theorem scoped_nil (scope : Scope) : Scoped scope [] [] := by
  intro blocks _
  exact ⟨[], by rw [addLines_nil]; exact readsTo_nil _ _⟩

theorem Scoped.append (h : Scoped scope ls rs) (h' : Scoped scope ls' rs') :
    Scoped scope (ls ++ ls') (rs ++ rs') := by
  intro blocks hcovers
  obtain ⟨added, hreads⟩ := h blocks hcovers
  obtain ⟨more, hreads'⟩ := h' _ (hcovers.addLines added)
  rw [addLines_addLines] at hreads'
  exact ⟨added ++ more, hreads.append hreads'⟩

theorem Line.references_of_refLine (h : RefLine l.text rs) (hl : l.isElement = false) :
    l.references = some rs := by
  obtain ⟨ts, hlex, rfl⟩ := h
  simp [Line.references, hl, hlex]

/-- A line whose references are names of the scope. -/
theorem readsTo_line (blocks : List OpenBraces)
    (h : l.references = some (names.map scope.reference))
    (hcovers : Covers (l.around blocks) scope.bound) :
    ReadsTo scope.fields blocks [l] (names.map scope.reference) (blocksAfter blocks l) := by
  refine .of_line h fun r hr => ?_
  obtain ⟨n, -, rfl⟩ := List.mem_map.1 hr
  exact resolved_reference hcovers n

/-- A line that neither opens nor closes a block. -/
theorem Scoped.line (h : l.references = some (names.map scope.reference))
    (hopens : l.opens = false) (hcloses : l.closes = false) :
    Scoped scope [l] (names.map scope.reference) := by
  intro blocks hcovers
  have haround : l.around blocks = blocks := by simp [Line.around, hcloses]
  refine ⟨[l], ?_⟩
  have hreads := readsTo_line blocks h (by rw [haround]; exact hcovers)
  rwa [blocksAfter, hopens, haround] at hreads

/-- A line without references. -/
theorem readsTo_plainLine (fields : List (List Char)) (blocks : List OpenBraces)
    (h : l.references = some []) (hopens : l.opens = false) (hcloses : l.closes = false) :
    ReadsTo fields blocks [l] [] (addLines [l] blocks) := by
  have hreads : ReadsTo fields blocks [l] [] (blocksAfter blocks l) := .of_line h (by simp)
  have haround : l.around blocks = blocks := by simp [Line.around, hcloses]
  rwa [blocksAfter, hopens, haround] at hreads

/-- A line that opens a block, perhaps after closing another. -/
theorem readsTo_opening (blocks : List OpenBraces)
    (h : l.references = some (names.map scope.reference)) (hopens : l.opens = true)
    (hcovers : Covers (l.around blocks) scope.bound) :
    ReadsTo scope.fields blocks [l] (names.map scope.reference) (⟨l, []⟩ :: l.around blocks) := by
  have hreads := readsTo_line blocks h hcovers
  rwa [blocksAfter, hopens] at hreads

/-- The line of a brace that closes a block. -/
def closingLine (depth : Nat) : Line := fixed depth "\x7d"

theorem readsTo_closing (fields : List (List Char)) (depth : Nat) (blocks : List OpenBraces) :
    ReadsTo fields blocks [closingLine depth] [] (addLines [closingLine depth] blocks.tail) := by
  have h : (closingLine depth).references = some [] := by
    change (lex "\x7d".toList).map Target.references = some []
    decide +kernel
  exact .of_line h (by simp)

/-- What stands in a block, from the line that opens it to the brace that closes it. -/
theorem readsTo_block {start blocks : List OpenBraces}
    (hopen : ReadsTo scope.fields start [l] rs (⟨l, []⟩ :: blocks))
    (hcovers : Covers blocks scope.bound) (hinner : Scoped scope ls rs') (depth : Nat) :
    ReadsTo scope.fields start (l :: ls ++ [closingLine depth]) (rs ++ rs')
      (addLines [closingLine depth] blocks) := by
  obtain ⟨added, hreads⟩ := hinner _ (hcovers.cons ⟨l, []⟩)
  have hclose := readsTo_closing scope.fields depth (addLines added (⟨l, []⟩ :: blocks))
  have hall := (hopen.append hreads).append hclose
  rwa [List.append_nil] at hall

/-- **A block.** -/
theorem Scoped.block (h : l.references = some (names.map scope.reference))
    (hopens : l.opens = true) (hcloses : l.closes = false) (hinner : Scoped scope ls rs)
    (depth : Nat) :
    Scoped scope (l :: ls ++ [closingLine depth]) (names.map scope.reference ++ rs) := by
  intro blocks hcovers
  have haround : l.around blocks = blocks := by simp [Line.around, hcloses]
  have hopen := readsTo_opening blocks h hopens (by rw [haround]; exact hcovers)
  rw [haround] at hopen
  exact ⟨_, readsTo_block hopen hcovers hinner depth⟩

/-- The last character decides whether a line opens a block. -/
theorem opens_append (depth : Nat) (cs : List Char) {ds : List Char} {c : Char}
    (h : ds.getLast? = some c) : (Line.mk depth (cs ++ ds)).opens = (c == '{') := by
  simp [Line.opens, List.getLast?_append, h]

/-- A line that binds a loop variable ends with an empty pair of parentheses and a semicolon. -/
theorem not_isElement_of_end (depth : Nat) (cs : List Char) {c : Char} (hc : c ≠ '(') :
    (Line.mk depth (cs ++ [c, ')', ';'])).isElement = false := by
  rw [Line.isElement, Bool.and_eq_false_iff]
  right
  rw [Bool.eq_false_iff]
  intro h
  obtain ⟨more, hmore⟩ := List.isSuffixOf_iff_suffix.1 h
  have hend : " = __items[__i].clone();".toList =
      " = __items[__i].clone".toList ++ ['(', ')', ';'] := by
    decide
  rw [hend, ← List.append_assoc] at hmore
  have := (List.append_inj' hmore rfl).2
  simp at this
  exact hc this.symm

/-- The depth of a line has no part in its references. -/
theorem references_fixed (depth : Nat) (text : String) :
    (fixed depth text).references = (fixed 0 text).references := rfl

/-! ## 5. Loops -/

/-- The line that binds a loop variable. -/
def elementLine (depth : Nat) (name : List Char) : Line :=
  ⟨depth, "let ".toList ++ bindingName name ++ " = __items[__i].clone();".toList⟩

def loopLine (depth : Nat) : Line :=
  fixed depth "let r#loop = Value::from(LoopInfo::new(__i, __items.len()));"

def forLine (depth : Nat) : Line := fixed depth "for __i in 0..__items.len() \x7b"

theorem isElement_elementLine (depth : Nat) (name : List Char) :
    (elementLine depth name).isElement = true := by
  have hstart : "let ".toList <+: (elementLine depth name).text :=
    ⟨bindingName name ++ " = __items[__i].clone();".toList, (List.append_assoc ..).symm⟩
  have hend : " = __items[__i].clone();".toList <:+ (elementLine depth name).text :=
    ⟨"let ".toList ++ bindingName name, rfl⟩
  rw [Line.isElement, Bool.and_eq_true]
  exact ⟨List.isPrefixOf_iff_prefix.2 hstart, List.isSuffixOf_iff_suffix.2 hend⟩

theorem binds_elementLine (depth : Nat) (name : List Char) :
    (elementLine depth name).Binds (bindingName name) := by
  have hsplit : " = __items[__i].clone();".toList =
      " = ".toList ++ "__items[__i].clone();".toList := by
    decide
  refine ⟨"__items[__i].clone();".toList, ?_⟩
  change _ = "let ".toList ++ bindingName name ++ " = __items[__i].clone();".toList
  rw [hsplit, List.append_assoc, List.append_assoc]

theorem binds_loopLine (depth : Nat) : (loopLine depth).Binds (bindingName loopName) := by
  refine ⟨"Value::from(LoopInfo::new(__i, __items.len()));".toList, ?_⟩
  change _ = "let r#loop = Value::from(LoopInfo::new(__i, __items.len()));".toList
  decide +kernel

theorem references_removal (depth : Nat) (name : List Char) :
    (Line.mk depth (removal name)).references = some [] :=
  Line.references_of_refLine (refLine_removal name) rfl

theorem opens_removal (depth : Nat) (name : List Char) :
    (Line.mk depth (removal name)).opens = false :=
  opens_append depth _ (c := ';') (by decide)

theorem references_elementLine (depth : Nat) (name : List Char) :
    (elementLine depth name).references = some [] := by
  rw [Line.references, isElement_elementLine]
  rfl

theorem references_loopLine (depth : Nat) : (loopLine depth).references = some [] := by
  rw [loopLine, references_fixed]
  decide +kernel

/-- The lines at the start of a pass. -/
def passLines (depth : Nat) (name : List Char) : List Line :=
  [⟨depth, removal name⟩, elementLine depth name, loopLine depth]

theorem readsTo_passLines (fields : List (List Char)) (blocks : List OpenBraces) (depth : Nat)
    (name : List Char) :
    ReadsTo fields blocks (passLines depth name) [] (addLines (passLines depth name) blocks) := by
  have hremove := readsTo_plainLine fields blocks (references_removal depth name)
    (opens_removal depth name) rfl
  have helement := readsTo_plainLine fields (addLines [⟨depth, removal name⟩] blocks)
    (references_elementLine depth name) (opens_append depth _ (c := ';') (by decide)) rfl
  have hloop := readsTo_plainLine fields
    (addLines [elementLine depth name] (addLines [⟨depth, removal name⟩] blocks))
    (references_loopLine depth) rfl rfl
  have hall := (hremove.append helement).append hloop
  rwa [addLines_addLines, addLines_addLines] at hall

/-- **In a pass the variable of the loop and `loop` are bound.** -/
theorem Covers.inLoop (h : Covers blocks scope.bound) (name : List Char) (depth inner : Nat) :
    Covers (⟨forLine depth, passLines inner name⟩ :: blocks) (scope.inLoop name).bound := by
  intro n hn
  rcases List.mem_append.1 hn with hn | hn
  · exact h.cons _ n hn
  · refine ⟨_, List.mem_cons_self .., rfl, ?_⟩
    rcases List.mem_cons.1 hn with rfl | hn
    · exact ⟨_, by simp [passLines], binds_elementLine inner n⟩
    · obtain rfl : n = loopName := by simpa using hn
      exact ⟨_, by simp [passLines], binds_loopLine inner⟩

/-- **The block of a loop.** -/
theorem Scoped.forBlock {body : List Line} {name : List Char}
    (h : Scoped (scope.inLoop name) body rs) (depth inner : Nat) :
    Scoped scope (forLine depth :: (passLines inner name ++ body) ++ [closingLine depth]) rs := by
  intro blocks hcovers
  have hfor : (forLine depth).references = some (([] : List (List Char)).map scope.reference) := by
    rw [forLine, references_fixed]
    exact (by decide +kernel : (fixed 0 "for __i in 0..__items.len() \x7b").references = some [])
  have hopen := readsTo_opening blocks hfor rfl hcovers
  have hpass := readsTo_passLines scope.fields (⟨forLine depth, []⟩ :: blocks) inner name
  obtain ⟨added, hbody⟩ := h _ (hcovers.inLoop name depth inner)
  have hclose := readsTo_closing scope.fields depth
    (addLines added (⟨forLine depth, passLines inner name⟩ :: blocks))
  have hall := (hopen.append (hpass.append hbody)).append hclose
  refine ⟨[closingLine depth], ?_⟩
  rwa [List.nil_append, List.append_nil] at hall

/-- The statement that gives a hidden assignment back. -/
theorem scoped_restore (scope : Scope) (depth : Nat) (name : List Char) :
    Scoped scope ((Stmt.restore name).lines depth) [] := by
  have hif : (fixed depth "if let Some(__value) = __shadowed \x7b").references =
      some (([] : List (List Char)).map scope.reference) := by
    rw [references_fixed]
    exact (by decide +kernel :
      (fixed 0 "if let Some(__value) = __shadowed \x7b").references = some [])
  have hvalue : RefText "__value".toList [] := refText_word (by decide) (by decide)
  have hinsert : (Line.mk (depth + 1) (insertion name "__value".toList)).references =
      some (([] : List (List Char)).map scope.reference) :=
    Line.references_of_refLine (refLine_insertion name hvalue) rfl
  have hinner : Scoped scope [⟨depth + 1, insertion name "__value".toList⟩] [] :=
    .line hinsert (opens_append _ _ (c := ';') (by decide)) rfl
  exact Scoped.block hif rfl rfl hinner depth

theorem scoped_letItems {items : Code}
    (hitems : RefOperand items.print (names.map scope.reference)) (depth : Nat) :
    Scoped scope ((Stmt.letItems (.convert items)).lines depth) (names.map scope.reference) := by
  have hline := refLine_letItems ((composes_refers scope).convert hitems)
  have hend : "let __items = as_list(&".toList ++ (Code.convert items).print ++ ");".toList =
      "let __items = as_list(&Value::from(".toList ++ items.print ++ [')', ')', ';'] := by
    have hsplit : "let __items = as_list(&Value::from(".toList =
        "let __items = as_list(&".toList ++ "Value::from".toList ++ ['('] := by decide
    rw [hsplit]
    simp only [Code.print_convert, call, List.append_assoc, List.cons_append, List.nil_append]
    rfl
  refine .line (Line.references_of_refLine hline ?_) (opens_append depth _ (c := ';') (by decide)) rfl
  rw [hend]
  exact not_isElement_of_end depth _ (by decide)

theorem scoped_letShadowed (scope : Scope) (depth : Nat) (name : List Char) :
    Scoped scope ((Stmt.letShadowed name).lines depth) [] := by
  have hend : "let __shadowed = ".toList ++ removal name =
      "let __shadowed = ".toList ++ "__locals.remove(".toList ++ '"' :: name.flatMap escapeChar ++
        ['"', ')', ';'] := by
    change "let __shadowed = ".toList ++
      ("__locals.remove(".toList ++ quote name ++ ");".toList) = _
    simp only [quote, List.append_assoc, List.cons_append, List.nil_append]
    rfl
  have hreferences : (Line.mk depth ("let __shadowed = ".toList ++ removal name)).references =
      some (([] : List (List Char)).map scope.reference) := by
    refine Line.references_of_refLine (refLine_letShadowed name) ?_
    rw [hend]
    exact not_isElement_of_end depth _ (by decide)
  refine .line hreferences ?_ rfl
  rw [hend]
  exact opens_append depth _ (c := ';') rfl

/-- **A loop refers to what its list and its body refer to**, the body with more names bound. -/
theorem Scoped.loopBlock {name : List Char} {items : Code} {body : List Stmt} {depth : Nat}
    (hitems : RefOperand items.print (names.map scope.reference))
    (hbody : Scoped (scope.inLoop name) (stmtsLines (depth + 2) body) rs) :
    Scoped scope ((Target.loopBlock name items body).lines depth)
      (names.map scope.reference ++ rs) := by
  have hopen : (fixed depth "\x7b").references =
      some (([] : List (List Char)).map scope.reference) := by
    rw [references_fixed]
    exact (by decide +kernel : (fixed 0 "\x7b").references = some [])
  have hinner := (scoped_letItems hitems (depth + 1)).append
    ((scoped_letShadowed scope (depth + 1) name).append
      ((hbody.forBlock (depth + 1) (depth + 2)).append
        ((scoped_restore scope (depth + 1) name).append (scoped_nil scope))))
  have hall := Scoped.block hopen rfl rfl hinner depth
  have hrs : ([] : List (List Char)).map scope.reference ++
      (names.map scope.reference ++ ([] ++ (rs ++ ([] ++ [])))) =
        names.map scope.reference ++ rs := by simp
  rw [hrs] at hall
  exact hall

end

/-! ## 6. Statements -/

section
variable {scope : Scope} {names : List (List Char)} {rs : List Reference}

theorem Scoped.statement {s : Stmt} {depth : Nat} (h : Scoped scope (s.lines depth) rs) :
    Scoped scope (stmtsLines depth [s]) rs := by
  have hall := h.append (scoped_nil scope)
  rwa [List.append_nil rs] at hall

theorem scoped_pushText (scope : Scope) (depth : Nat) (text : List Char) :
    Scoped scope ((Stmt.pushText text).lines depth) [] := by
  intro blocks _
  exact ⟨_, readsTo_plainLine scope.fields blocks
    (Line.references_of_refLine (refLine_pushText text) rfl)
    (opens_append depth _ (c := ';') (by decide)) rfl⟩

theorem scoped_pushValue {value : Code} (h : RefOperand value.print (names.map scope.reference))
    (depth : Nat) : Scoped scope ((Stmt.pushValue value).lines depth) (names.map scope.reference) :=
  .line (Line.references_of_refLine (refLine_pushValue h) rfl)
    (opens_append depth _ (c := ';') (by decide)) rfl

theorem scoped_insert (name : List Char) {value : Code}
    (h : RefText value.print (names.map scope.reference)) (depth : Nat) :
    Scoped scope ((Stmt.insert name value).lines depth) (names.map scope.reference) :=
  .line (Line.references_of_refLine (refLine_insertion name h) rfl)
    (opens_append depth _ (c := ';') (by decide)) rfl

/-- The line of a condition. -/
def conditionLine (depth : Nat) (first : Bool) (condition : Code) : Line :=
  ⟨depth, (if first then "if " else "\x7d else if ").toList ++ condition.print ++ " \x7b".toList⟩

theorem opens_conditionLine (depth : Nat) (first : Bool) (condition : Code) :
    (conditionLine depth first condition).opens = true :=
  opens_append depth _ (c := '{') (by decide)

theorem references_conditionLine {condition : Code} (h : RefText condition.print rs) (depth : Nat)
    (first : Bool) : (conditionLine depth first condition).references = some rs := by
  cases first with
  | true => exact Line.references_of_refLine (h.condition startsLine_if) rfl
  | false => exact Line.references_of_refLine (h.condition startsLine_elseIf) rfl

end

/-! ## 7. Templates -/

/-- What a name refers to inside the loops over some variables. -/
def nameReference (fields around : List (List Char)) (n : List Char) : Reference :=
  if around.contains n || (n == loopName && !around.isEmpty) then .bound n (bindingName n)
  else if fields.contains n then .field (bindingName n)
  else .free n

/-- What the names of an expression refer to. -/
def snippetReferences (fields around : List (List Char)) (s : Snippet) : List Reference :=
  match Expr.read s.source with
  | .ok e => (namesOf e).map (nameReference fields around)
  | .error _ => []

mutual

/-- What the names in a node refer to, in order.  The list of a loop is outside of the loop. -/
def nodeReferences (fields around : List (List Char)) : Node → List Reference
  | .text _ => []
  | .output expr => snippetReferences fields around expr
  | .assign _ value => snippetReferences fields around value
  | .choice arms => armsReferences fields around arms
  | .loop name items body =>
    snippetReferences fields around items ++ nodesReferences fields (around ++ [name]) body
  | .template _ => []

def nodesReferences (fields around : List (List Char)) : List Node → List Reference
  | [] => []
  | n :: rest => nodeReferences fields around n ++ nodesReferences fields around rest

def armsReferences (fields around : List (List Char)) : Arms → List Reference
  | .stop => []
  | .otherwise body => nodesReferences fields around body
  | .arm condition body rest =>
    snippetReferences fields around condition ++
      (nodesReferences fields around body ++ armsReferences fields around rest)

end

mutual

/-- Whether every choice in a node has a condition. -/
def isArmed : Node → Bool
  | .choice arms => arms.hasArm && armsArmed arms
  | .loop _ _ body => areArmed body
  | _ => true

def areArmed : List Node → Bool
  | [] => true
  | n :: rest => isArmed n && areArmed rest

/-- The same for the bodies of arms. -/
def armsArmed : Arms → Bool
  | .stop => true
  | .otherwise body => areArmed body
  | .arm _ body rest => areArmed body && armsArmed rest

end

/-- The scope inside the loops over some variables. -/
def loopScope (fields around : List (List Char)) : Scope :=
  { fields, bound := around.flatMap fun v => [v, loopName] }

theorem inLoop_loopScope (fields around : List (List Char)) (name : List Char) :
    (loopScope fields around).inLoop name = loopScope fields (around ++ [name]) := by
  simp [loopScope, Scope.inLoop]

theorem reference_loopScope (fields around : List (List Char)) (n : List Char) :
    (loopScope fields around).reference n = nameReference fields around n := by
  have hbound : (loopScope fields around).bound.contains n =
      (around.contains n || (n == loopName && !around.isEmpty)) := by
    rw [Bool.eq_iff_iff]
    simp only [loopScope, List.contains_eq_mem, decide_eq_true_eq, List.mem_flatMap, List.mem_cons,
      List.not_mem_nil, or_false, Bool.or_eq_true, Bool.and_eq_true, beq_iff_eq, Bool.not_eq_true',
      List.isEmpty_eq_false_iff]
    constructor
    · rintro ⟨v, hv, rfl | rfl⟩
      · exact .inl hv
      · exact .inr ⟨rfl, List.ne_nil_of_mem hv⟩
    · rintro (hn | ⟨rfl, hne⟩)
      · exact ⟨n, hn, .inl rfl⟩
      · obtain ⟨v, rest, rfl⟩ := List.exists_cons_of_ne_nil hne
        exact ⟨v, by simp, .inr rfl⟩
  rw [Scope.reference, nameReference, hbound]
  rfl

/-- **The code of a snippet refers to the names in it.** -/
theorem refOperand_snippet {fields around : List (List Char)} {s : Snippet} {c : Code}
    (h : compileSnippet (loopScope fields around) s = .ok c) :
    ∃ names : List (List Char), RefOperand c.print (names.map (loopScope fields around).reference) ∧
      names.map (loopScope fields around).reference = snippetReferences fields around s := by
  obtain ⟨e, hread, rfl⟩ := eq_lower_of_compileSnippet h
  refine ⟨namesOf e, refOperand_lower (Expr.shaped_of_read hread), ?_⟩
  rw [snippetReferences, hread]
  exact List.map_congr_left fun n _ => reference_loopScope fields around n

mutual

theorem scoped_node (fields around : List (List Char)) (depth : Nat) (n : Node) (ss : List Stmt)
    (h : compileNode (loopScope fields around) n = .ok ss) (harmed : isArmed n = true) :
    Scoped (loopScope fields around) (stmtsLines depth ss) (nodeReferences fields around n) := by
  cases n with
  | text value =>
    cases h
    split
    · exact scoped_nil _
    · exact (scoped_pushText _ depth value).statement
  | output expr =>
    obtain ⟨code, hcode, rfl⟩ := eq_pushValue_of_compileNode h
    obtain ⟨names, hrefs, heq⟩ := refOperand_snippet hcode
    rw [nodeReferences, ← heq]
    have hvalue := (composes_refers (loopScope fields around)).convert hrefs
    exact (scoped_pushValue hvalue depth).statement
  | assign name value =>
    obtain ⟨code, hcode, rfl⟩ := eq_insert_of_compileNode h
    obtain ⟨names, hrefs, heq⟩ := refOperand_snippet hcode
    rw [nodeReferences, ← heq]
    have hvalue := (composes_refers (loopScope fields around)).convert hrefs
    exact (scoped_insert name hvalue.2 depth).statement
  | choice arms =>
    obtain ⟨compiled, harms, rfl⟩ := eq_choose_of_compileNode h
    rw [isArmed, Bool.and_eq_true] at harmed
    refine Scoped.statement fun blocks hcovers => ?_
    exact readsTo_arms fields around depth true arms compiled harms harmed.2 (fun _ => harmed.1)
      blocks hcovers
  | loop name items body =>
    obtain ⟨code, inner, hcode, hinner, rfl⟩ := eq_loopBlock_of_compileNode h
    rw [inLoop_loopScope] at hinner
    have hbody := scoped_nodes fields (around ++ [name]) (depth + 2) body inner hinner harmed
    obtain ⟨names, hrefs, heq⟩ := refOperand_snippet hcode
    rw [← inLoop_loopScope] at hbody
    rw [nodeReferences, ← heq]
    exact (Scoped.loopBlock hrefs hbody).statement
  | template children => cases h

theorem scoped_nodes (fields around : List (List Char)) (depth : Nat) (ns : List Node)
    (ss : List Stmt) (h : compileNodes (loopScope fields around) ns = .ok ss)
    (harmed : areArmed ns = true) :
    Scoped (loopScope fields around) (stmtsLines depth ss) (nodesReferences fields around ns) := by
  cases ns with
  | nil =>
    cases h
    exact scoped_nil _
  | cons n rest =>
    obtain ⟨first, more, hfirst, hmore, rfl⟩ := eq_append_of_compileNodes h
    rw [areArmed, Bool.and_eq_true] at harmed
    rw [stmtsLines_append, nodesReferences]
    exact (scoped_node fields around depth n first hfirst harmed.1).append
      (scoped_nodes fields around depth rest more hmore harmed.2)

/-- The arms of a choice.  All but the first start by closing a block. -/
theorem readsTo_arms (fields around : List (List Char)) (depth : Nat) (first : Bool) (arms : Arms)
    (compiled : StmtArms) (h : compileArms (loopScope fields around) arms = .ok compiled)
    (harmed : armsArmed arms = true) (hfirst : first = true → arms.hasArm = true)
    (blocks : List OpenBraces)
    (hcovers : Covers (if first then blocks else blocks.tail) (loopScope fields around).bound) :
    ∃ added, ReadsTo fields blocks (armsLines depth first compiled)
      (armsReferences fields around arms)
      (addLines added (if first then blocks else blocks.tail)) := by
  cases arms with
  | stop =>
    cases h
    cases first with
    | true => cases hfirst rfl
    | false => exact ⟨_, readsTo_closing fields depth blocks⟩
  | otherwise body =>
    cases first with
    | true => cases hfirst rfl
    | false =>
      obtain ⟨inner, hinner, rfl⟩ := eq_otherwise_of_compileArms h
      have helse : (fixed depth "\x7d else \x7b").references =
          some (([] : List (List Char)).map (loopScope fields around).reference) := by
        rw [references_fixed]
        exact (by decide +kernel : (fixed 0 "\x7d else \x7b").references = some [])
      have hopen := readsTo_opening blocks helse rfl hcovers
      have hbody := scoped_nodes fields around (depth + 1) body inner hinner harmed
      exact ⟨_, readsTo_block hopen hcovers hbody depth⟩
  | arm condition body rest =>
    obtain ⟨code, inner, more, hcode, hinner, hmore, rfl⟩ := eq_arm_of_compileArms h
    rw [armsArmed, Bool.and_eq_true] at harmed
    obtain ⟨names, hrefs, heq⟩ := refOperand_snippet hcode
    have haround : (conditionLine depth first (truthOf code)).around blocks =
        if first then blocks else blocks.tail := by
      cases first <;> rfl
    have htruth := ((composes_refers (loopScope fields around)).truthOf hrefs).2
    have hopen := readsTo_opening blocks (references_conditionLine htruth depth first)
      (opens_conditionLine ..) (by rw [haround]; exact hcovers)
    rw [haround] at hopen
    obtain ⟨added, hbody⟩ := scoped_nodes fields around (depth + 1) body inner hinner harmed.1 _
      (hcovers.cons _)
    obtain ⟨added', hrest⟩ := readsTo_arms fields around depth false rest more hmore harmed.2
      (by simp) (addLines added (⟨conditionLine depth first (truthOf code), []⟩ ::
        if first then blocks else blocks.tail)) hcovers
    refine ⟨added', ?_⟩
    rw [armsReferences, ← heq]
    exact hopen.append (hbody.append hrest)

end

/-- **Generated code refers only to names that it binds.**  All lines of the body can be read.  They
refer to the names of the template in order, a name with a local as its fallback exactly if a loop
around it has the name as its variable, or the name is `loop` and there is a loop around it.  Every
such local is bound by a line of an open loop, and every field that is used is declared. -/
theorem references_resolved (fields : List (List Char)) (name : List Char) (nodes : List Node)
    (text : List Char) (h : generate fields name nodes = .ok text)
    (harmed : areArmed nodes = true) :
    ∃ body us, text = fileText fields name body ∧ uses [] (stmtsLines 2 body) = some us ∧
      us.map Use.reference = nodesReferences fields [] nodes ∧ ∀ u ∈ us, u.Resolved fields := by
  obtain ⟨body, hbody, htext⟩ := eq_ok_of_bind h
  cases htext
  obtain ⟨added, us, huses, hreferences, hresolved⟩ :=
    scoped_nodes fields [] 2 nodes body hbody harmed [] (by simp [Covers, loopScope])
  refine ⟨body, us, rfl, ?_, hreferences, hresolved⟩
  have hall := huses []
  rw [List.append_nil] at hall
  rw [hall, uses]
  simp

/-- A loop inside a loop over the same name, with uses of the name inside and after both. -/
def shadowingLoops : List Node :=
  [.loop ['x'] ⟨"rows".toList, default⟩
    [.loop ['x'] ⟨"x.y".toList, default⟩ [.output ⟨"x + loop.index".toList, default⟩],
     .output ⟨['x'], default⟩],
   .output ⟨['x'], default⟩]

/-- The theorem at a loop inside a loop over the same name. -/
theorem references_resolved_shadowing :
    ∃ text, generate ["rows".toList] "nested".toList shadowingLoops = .ok text ∧
      areArmed shadowingLoops = true ∧
      ∃ body us, text = fileText ["rows".toList] "nested".toList body ∧
        uses [] (stmtsLines 2 body) = some us ∧
        us.map Use.reference =
          [.field "rows".toList, .bound ['x'] ['x'], .bound ['x'] ['x'],
           .bound "loop".toList "r#loop".toList, .bound ['x'] ['x'], .free ['x']] ∧
        ∀ u ∈ us, u.Resolved ["rows".toList] := by
  have hsome : (generate ["rows".toList] "nested".toList shadowingLoops).toOption.isSome =
      true := by
    decide +kernel
  cases h : generate ["rows".toList] "nested".toList shadowingLoops with
  | error e =>
    rw [h] at hsome
    cases hsome
  | ok text =>
    have harmed : areArmed shadowingLoops = true := by decide
    obtain ⟨body, us, htext, huses, hreferences, hresolved⟩ :=
      references_resolved _ _ _ text h harmed
    refine ⟨text, rfl, harmed, body, us, htext, huses, ?_, hresolved⟩
    rw [hreferences]
    decide +kernel

end TemplateCompiler.Target
