import TemplateCompiler.Proofs.Outcome
import TemplateCompiler.Proofs.Target.Composition
import TemplateCompiler.Proofs.Target.Fragments
import TemplateCompiler.Proofs.Template.WellFormed
import TemplateCompiler.Target.Renderer

/-! # What a template holds stays in its literals

Texts, names and constants of a template, and the names of filters, are put into generated code:
the last into comments, all else into string literals.  Main statement: nothing of it leaves its
place (`compile_contained`).  The code after the prelude is taken apart into literals, comments and
other characters without a look at the template; then every literal stands on one line, all that is
outside of literals is printable ASCII, and the literals, each with its role, are those that the
template asks for, in order.

The proof follows the compiler: expressions, statements, and the lines of a file.
-/

namespace TemplateCompiler.Target

open Text Reading Template

/-! ## 1. Plain texts -/

theorem isPlainChar_of_isIdentChar {c : Char} (h : isIdentChar c = true) :
    isPlainChar c = true := by
  have hbare : isBare c = true := by
    simp only [isBare, Bool.and_eq_true, bne_iff_ne]
    refine ⟨⟨?_, ?_⟩, ?_⟩ <;>
    · rintro rfl
      exact absurd h (by decide)
  simp only [isIdentChar, Char.isAlphanum, Bool.or_eq_true, isAlpha_iff, isDigit_iff,
    beq_iff_eq] at h
  have hprintable : isPrintable c = true := by
    simp only [isPrintable, Bool.and_eq_true, decide_eq_true_eq]
    rcases h with ((h | h) | h) | rfl
    · omega
    · omega
    · omega
    · decide
  rw [isPlainChar, hprintable, hbare]
  rfl

theorem isPrintable_of_isPlainChar {c : Char} (h : isPlainChar c = true) :
    isPrintable c = true := by
  simp only [isPlainChar, Bool.and_eq_true] at h
  exact h.1

section
variable {p : Char → Bool} (hp : ∀ c, isIdentChar c = true → p c = true)
include hp

/-- The characters of a binding belong to every class that has those of names and a hash. -/
theorem all_bindingName (hhash : p '#' = true) {n : List Char} (hn : isIdentifier n = true) :
    (bindingName n).all p = true := by
  have hname : n.all p = true := by
    rw [List.all_eq_true]
    exact fun c hc => hp c (isIdentChar_of_mem hn hc)
  have hconst : p '_' = true ∧ p 'r' = true := ⟨hp '_' rfl, hp 'r' rfl⟩
  unfold bindingName
  split
  · simp [hname, hconst]
  split
  · simp [hname, hconst]
  split
  · simp [hname, hconst, hhash]
  · exact hname

/-- The characters of a number belong to every class that has those of names, a point and a minus
sign. -/
theorem IsFloatText.all (hpoint : p '.' = true) (hminus : p '-' = true) {cs : List Char}
    (h : IsFloatText cs) : cs.all p = true := by
  obtain ⟨whole, fraction, power, rfl, hwhole, hfraction, hpower, -⟩ := h
  have hpowerMark : p 'e' = true := hp 'e' rfl
  have hfraction' : fraction.all p = true := by
    rcases hfraction with rfl | ⟨ds, hds, rfl⟩
    · rfl
    · simp [hds.all hp, hpoint]
  have hpower' : power.all p = true := by
    rcases hpower with rfl | ⟨sign, ds, hds, rfl | rfl, rfl⟩
    · rfl
    · simp [hds.all hp, hpowerMark]
    · simp [hds.all hp, hpowerMark, hminus]
  rw [List.all_append, List.all_append, hwhole.all hp, hfraction', hpower']
  rfl

end

theorem all_isPlainChar_bindingName {n : List Char} (hn : isIdentifier n = true) :
    (bindingName n).all isPlainChar = true :=
  all_bindingName (fun _ => isPlainChar_of_isIdentChar) rfl hn

theorem IsFloatText.all_isPlainChar {cs : List Char} (h : IsFloatText cs) :
    cs.all isPlainChar = true :=
  h.all (fun _ => isPlainChar_of_isIdentChar) rfl rfl

/-! ## 2. Expressions -/

/-- The literals for a name: a field of the input needs none. -/
def nameLiterals (scope : Scope) (n : List Char) : List (Role × List Char) :=
  if !scope.bound.contains n && scope.fields.contains n then [] else [(.variable, n)]

/-- The literals for the leaves of an expression. -/
def literalContents (scope : Scope) : Contents (Role × List Char) :=
  { constant := fun value => [(.constant, value)]
    name := nameLiterals scope
    prop := fun n => [(.attribute, n)] }

/-- The literals for an expression, in the order in which they stand in the code. -/
def exprLiterals (scope : Scope) (e : Expr) : List (Role × List Char) :=
  (literalContents scope).of e

variable {scope : Scope}

section
variable {cs ds : List Char} {ls ms : List (Role × List Char)}

/-- A call whose arguments have these literals. -/
theorem Shows.call {f : String} (hf : f.toList.all isPlainChar = true) (h : Shows cs ls) :
    Shows (call f cs) ls := by
  have hfront : Shows (f.toList ++ ['(']) [] := shows_plain (by rw [List.all_append, hf]; decide)
  have hlast : Shows [')'] [] := shows_plain (by decide)
  have hall := (hfront.append h).append hlast
  simpa [Target.call] using hall

theorem Shows.afterChar (h : Shows cs ls) {c : Char} (hc : isPlainChar c = true) :
    Shows (c :: cs) ls := by
  have hchar : Shows [c] [] := shows_plain (by simp [hc])
  exact hchar.append h

theorem Shows.reference (h : Shows cs ls) : Shows ('&' :: cs) ls := h.afterChar rfl

/-- Plain code between two texts. -/
theorem Shows.join {mid : List Char} (h : Shows cs ls) (hmid : Shows mid []) (h' : Shows ds ms) :
    Shows (cs ++ mid ++ ds) (ls ++ ms) := by
  have hall := (h.append hmid).append h'
  rwa [List.append_nil] at hall

theorem Shows.prop (h : Shows cs ls) (name : List Char) :
    Shows (Target.call "get_prop" ('&' :: cs ++ ", ".toList ++ quote name))
      (ls ++ [(.attribute, name)]) := by
  have hfront : Shows ("get_prop".toList ++ ['(', '&']) [] := shows_plain (by decide)
  have hname := shows_literal ", ".toList [')'] rfl rfl
    (roleOf_of_mem (", ", ')', .attribute) (by decide)) name
  have hall := hfront.append (h.append hname)
  simp only [Target.call, List.append_assoc, List.cons_append, List.nil_append] at hall ⊢
  exact hall

/-- The characters of the comment for a filter can be seen. -/
theorem isPrintable_of_mem_note {filter : List Char} (hf : ∀ x ∈ filter, isIdentChar x = true) :
    ∀ x ∈ " unsupported filter: ".toList ++ filter ++ [' '], isPrintable x = true := by
  have hwords : ∀ x ∈ " unsupported filter: ".toList, isPrintable x = true :=
    forall_mem_of_all (by decide)
  intro x hx
  rw [List.mem_append, List.mem_append] at hx
  rcases hx with (hx | hx) | hx
  · exact hwords x hx
  · exact isPrintable_of_isPlainChar (isPlainChar_of_isIdentChar (hf x hx))
  · obtain rfl : x = ' ' := by simpa using hx
    rfl

theorem Shows.note (h : Shows cs ls) {filter : List Char}
    (hf : ∀ x ∈ filter, isIdentChar x = true) :
    Shows ('/' :: '*' :: (" unsupported filter: ".toList ++ filter ++ [' '] ++
      '*' :: '/' :: ' ' :: cs)) ls := by
  have hcomment := shows_comment (ne_of_mem_note hf) (isPrintable_of_mem_note hf)
  have hall := hcomment.append (h.afterChar (c := ' ') rfl)
  simp only [List.append_assoc, List.cons_append, List.nil_append] at hall ⊢
  exact hall

theorem Shows.operator (h : Shows cs ls) (op : Operator) (h' : Shows ds ms) :
    Shows (cs ++ ' ' :: (op.text ++ ' ' :: ds)) (ls ++ ms) := by
  have hop : Shows (' ' :: op.text ++ [' ']) [] := by
    cases op with
    -- the one operator that could open a comment has blanks around it
    | div => exact shows_slash
    | _ => exact shows_plain (by decide)
  have hall := h.join hop h'
  simp only [List.append_assoc, List.cons_append, List.nil_append] at hall ⊢
  exact hall

end

/-- A look-up with a fallback. -/
theorem shows_lookup (n : List Char) {fallback : List Char}
    (h : fallback.all isPlainChar = true) :
    Shows (call "get_var" ("&__locals, ".toList ++ quote n ++ (", &".toList ++ fallback)))
      [(.variable, n)] := by
  have hafter : followsLiteral (", &".toList ++ fallback ++ [')']) = true := by
    rw [followsLiteral, List.all_append, List.all_append, h]
    rfl
  have hall := shows_literal "get_var(&__locals, ".toList _ rfl hafter
    (roleOf_of_mem ("get_var(&__locals, ", ',', .variable) (by decide)) n
  simp only [call, List.append_assoc, List.cons_append] at hall ⊢
  exact hall

/-- **A name is written as a literal or as a field**, whatever it means. -/
theorem shows_resolve {n : List Char} (hn : isIdentifier n = true) :
    Shows (scope.resolve n).print (nameLiterals scope n) := by
  have hplain := all_isPlainChar_bindingName hn
  unfold Scope.resolve nameLiterals
  by_cases hbound : scope.bound.contains n = true
  · rw [if_pos hbound, hbound]
    have hall := shows_lookup n hplain
    rw [← List.append_assoc] at hall
    exact hall
  · rw [if_neg hbound, Bool.eq_false_iff.2 hbound]
    by_cases hfield : scope.fields.contains n = true
    · rw [if_pos hfield, hfield]
      have hall : ("context.".toList ++ bindingName n ++ ".clone()".toList).all isPlainChar =
          true := by
        rw [List.all_append, List.all_append, hplain]
        decide
      exact shows_plain hall
    · rw [if_neg hfield, Bool.eq_false_iff.2 hfield]
      have hundefined : "Value::Undefined".toList.all isPlainChar = true := by decide
      exact shows_lookup n hundefined

theorem isPlain_of_mem_loweredCalls :
    ∀ f ∈ loweredCalls, f.toList.all isPlainChar = true := by
  decide

/-- Every way of writing code keeps the literals of its parts in their order. -/
theorem composes_shows (scope : Scope) : Composes (literalContents scope) scope Shows Shows where
  ofOperand h := h
  digits n := shows_plain ((digits_toDigits n).all fun _ => isPlainChar_of_isIdentChar)
  number h := shows_plain h.all_isPlainChar
  truthValue b := shows_plain (by cases b <;> decide)
  null := shows_plain (by decide)
  constant value :=
    shows_literal "Value::from(".toList [')'] rfl rfl
      (roleOf_of_mem ("Value::from(", ')', .constant) (by decide)) value
  name hn := shows_resolve hn
  prop n h := h.prop n
  call hf h := h.call (isPlain_of_mem_loweredCalls _ hf)
  reference h := h.reference
  comma h h' := h.join (shows_plain (by decide)) h'
  sign hc h := h.afterChar (by rcases hc with rfl | rfl <;> rfl)
  operator op h h' := h.operator op h'
  note hf h := h.note hf

/-- **The literals of lowered code are those of the expression.** -/
theorem shows_lower {form : Form} {e : Expr} (h : Shaped form e) :
    Shows (lower scope e).print (exprLiterals scope e) :=
  (composes_shows scope).lower h

/-! ## 3. Lines -/

/-- The lines of a text. -/
def linesOf : List Char → List (List Char)
  | [] => [[]]
  | c :: rest =>
    if c = '\n' then [] :: linesOf rest
    else
      match linesOf rest with
      | [] => [[c]]
      | l :: more => (c :: l) :: more

/-- The value of the literal on a line that writes a literal and does nothing else. -/
def pushed? (line : List Char) : Option (List Char) :=
  let text := line.dropWhile (· == ' ')
  if "__out.push_str(\"".toList.isPrefixOf text then
    match textBody? .no (text.drop 16) with
    | some (value, after) => if after = ");".toList then some value else none
    | none => none
  else none

/-- A text of whole lines with these literals. -/
def Laid (cs : List Char) (ls : List (Role × List Char)) : Prop :=
  ∃ fs, Reads cs fs ∧ (∀ f ∈ fs, f = .code '\n' ∨ f.Orderly) ∧ Holds fs ls

/-- A line that has these literals, and writes this text if it only writes a literal. -/
structure ShowsLine (text : List Char) (ls : List (Role × List Char))
    (written : Option (List Char)) : Prop where
  laid : Laid (text ++ ['\n']) ls
  newline : '\n' ∉ text
  pushed : pushed? text = written

/-- Lines that have these literals and write these texts. -/
structure ShowsLines (rows : List Line) (ls : List (Role × List Char))
    (texts : List (List Char)) : Prop where
  laid : Laid (printLines rows) ls
  pushed : ∀ rest, (linesOf (printLines rows ++ rest)).filterMap pushed? =
    texts ++ (linesOf rest).filterMap pushed?

section
variable {cs ds text : List Char} {ls ms : List (Role × List Char)} {written : Option (List Char)}
  {rows more : List Line} {texts others : List (List Char)}

theorem linesOf_append {l : List Char} (h : '\n' ∉ l) (rest : List Char) :
    linesOf (l ++ '\n' :: rest) = l :: linesOf rest := by
  induction l with
  | nil => simp [linesOf]
  | cons c l ih =>
    simp only [List.mem_cons, not_or] at h
    rw [List.cons_append, linesOf, if_neg (Ne.symm h.1), ih h.2]

/-- Indentation does not matter for what a line writes. -/
theorem pushed?_indented (n : Nat) (text : List Char) :
    pushed? (List.replicate n ' ' ++ text) = pushed? text := by
  induction n with
  | zero => rfl
  | succ n ih =>
    rw [← ih]
    rfl

theorem Shows.laid (h : Shows cs ls) : Laid cs ls := by
  obtain ⟨fs, htaken, hholds⟩ := h
  exact ⟨fs, htaken.reads, fun f hf => .inr (htaken.orderly f hf), hholds⟩

theorem Laid.append (h : Laid cs ls) (h' : Laid ds ms) : Laid (cs ++ ds) (ls ++ ms) := by
  obtain ⟨fs, hreads, horderly, hholds⟩ := h
  obtain ⟨gs, hreads', horderly', hholds'⟩ := h'
  refine ⟨fs ++ gs, hreads.append hreads', fun f hf => ?_, hholds.append hholds'⟩
  rcases List.mem_append.1 hf with hf | hf
  · exact horderly f hf
  · exact horderly' f hf

theorem laid_newline : Laid ['\n'] [] := by
  refine ⟨[.code '\n'], fun before rest => ⟨some '\n', fragments_bare rfl before rest⟩, ?_,
    holds_code ['\n']⟩
  intro f hf
  exact .inl (List.mem_singleton.1 hf)

/-- A line of code. -/
theorem Shows.line (h : Shows text ls) (hpushed : pushed? text = written) :
    ShowsLine text ls written := by
  have hlaid := h.laid.append laid_newline
  rw [List.append_nil] at hlaid
  obtain ⟨fs, htaken, -⟩ := h
  exact ⟨hlaid, htaken.not_mem_newline, hpushed⟩

/-- A line that is a comment. -/
theorem showsLine_comment {note : List Char} (h : ∀ c ∈ note, isPrintable c = true) :
    ShowsLine ('/' :: '/' :: note) [] none := by
  have hnewline : '\n' ∉ note := fun hmem => absurd (h '\n' hmem) (by decide)
  refine ⟨⟨[.comment ('/' :: '/' :: note), .code '\n'], fun before rest => ⟨some '\n', ?_⟩, ?_,
    fun before rest => ⟨['\n'], rfl⟩⟩, by simp [hnewline], rfl⟩
  · have hcomment := fragments_lineComment hnewline before rest
    rw [fragments_bare (c := '\n') rfl none rest] at hcomment
    simp only [List.append_assoc, List.cons_append, List.nil_append]
    rw [hcomment]
    cases fragments (some '\n') rest <;> rfl
  · intro f hf
    simp only [List.mem_cons, List.not_mem_nil, or_false] at hf
    rcases hf with rfl | rfl
    · refine .inr fun c hc => ?_
      simp only [List.mem_cons] at hc
      rcases hc with rfl | rfl | hc
      · rfl
      · rfl
      · exact h c hc
    · exact .inl rfl

theorem printLines_append (rows more : List Line) :
    printLines (rows ++ more) = printLines rows ++ printLines more :=
  List.flatMap_append

theorem showsLines_nil : ShowsLines [] [] [] :=
  ⟨⟨[], reads_nil, by simp, holds_code []⟩, fun _ => rfl⟩

theorem ShowsLines.append (h : ShowsLines rows ls texts) (h' : ShowsLines more ms others) :
    ShowsLines (rows ++ more) (ls ++ ms) (texts ++ others) := by
  refine ⟨?_, fun rest => ?_⟩
  · rw [printLines_append]
    exact h.laid.append h'.laid
  · rw [printLines_append, List.append_assoc, h.pushed, h'.pushed, List.append_assoc]

theorem all_isPlainChar_blanks (n : Nat) : (List.replicate n ' ').all isPlainChar = true := by
  rw [List.all_eq_true]
  intro c hc
  obtain rfl := List.eq_of_mem_replicate hc
  rfl

/-- **One line of a file.** -/
theorem ShowsLine.row (h : ShowsLine text ls written) (depth : Nat) :
    ShowsLines [⟨depth, text⟩] ls written.toList := by
  have hblanks := shows_plain (all_isPlainChar_blanks (4 * depth))
  have hprint : ∃ blanks, Shows blanks [] ∧ pushed? (blanks ++ text) = written ∧
      printLines [⟨depth, text⟩] = blanks ++ (text ++ ['\n']) := by
    -- an empty line is not indented
    by_cases hempty : text.isEmpty = true
    · exact ⟨[], shows_plain rfl, h.pushed, by
        rw [List.isEmpty_iff.1 hempty]
        rfl⟩
    · refine ⟨_, hblanks, by rw [pushed?_indented, h.pushed], ?_⟩
      simp [printLines, Line.print, hempty]
  obtain ⟨blanks, hshows, hpushed, hprint⟩ := hprint
  have hnewline : '\n' ∉ blanks ++ text := by
    obtain ⟨fs, htaken, -⟩ := hshows
    rw [List.mem_append]
    rintro (hmem | hmem)
    · exact htaken.not_mem_newline hmem
    · exact h.newline hmem
  refine ⟨?_, fun rest => ?_⟩
  · rw [hprint]
    exact hshows.laid.append h.laid
  · have htext : printLines [⟨depth, text⟩] ++ rest = (blanks ++ text) ++ '\n' :: rest := by
      rw [hprint]
      simp
    rw [htext, linesOf_append hnewline, List.filterMap_cons, hpushed]
    cases written <;> rfl

end

/-! ## 4. Statements -/

section
variable {ls ms : List (Role × List Char)} {texts : List (List Char)}

/-- Whether a line is plain code that writes no text of its own. -/
def Line.isPlain (l : Line) : Bool := l.text.all isPlainChar && (pushed? l.text).isNone

/-- A line with plain code for something in the middle. -/
theorem isPlain_of_all {cs : List Char} (h : cs.all isPlainChar = true) (depth : Nat)
    (front after : List Char) (hfront : front.all isPlainChar = true)
    (hafter : after.all isPlainChar = true) (hpushed : pushed? (front ++ cs ++ after) = none) :
    (Line.mk depth (front ++ cs ++ after)).isPlain = true := by
  simp [Line.isPlain, -List.append_assoc, h, hfront, hafter, hpushed]

theorem showsLines_plain {rows : List Line} (h : rows.all Line.isPlain = true) :
    ShowsLines rows [] [] := by
  induction rows with
  | nil => exact showsLines_nil
  | cons l rows ih =>
    simp only [List.all_cons, Bool.and_eq_true, Line.isPlain, Option.isNone_iff_eq_none] at h
    exact (((shows_plain h.1.1).line h.1.2).row l.depth).append (ih h.2)

/-- Lines between lines of plain code. -/
theorem ShowsLines.between {rows : List Line} (h : ShowsLines rows ls texts)
    (front after : List Line) (hfront : front.all Line.isPlain = true)
    (hafter : after.all Line.isPlain = true) :
    ShowsLines (front ++ rows ++ after) ls texts := by
  have hall := ((showsLines_plain hfront).append h).append (showsLines_plain hafter)
  rwa [List.append_nil, List.append_nil] at hall

/-- Code that has a start and an end around it. -/
theorem Shows.between {cs : List Char} (h : Shows cs ls) (front after : List Char)
    (hfront : front.all isPlainChar = true) (hafter : after.all isPlainChar = true) :
    Shows (front ++ cs ++ after) ls := by
  have hall := ((shows_plain hfront).append h).append (shows_plain hafter)
  rwa [List.append_nil] at hall

/-- **A text is written by a line of its own.** -/
theorem showsLines_pushText (depth : Nat) (text : List Char) :
    ShowsLines ((Stmt.pushText text).lines depth) [(.text, text)] [text] := by
  have hshows := shows_literal "__out.push_str(".toList ");".toList rfl rfl
    (roleOf_of_mem ("__out.push_str(", ')', .text) (by decide)) text
  have hpushed : pushed? ("__out.push_str(".toList ++ quote text ++ ");".toList) = some text := by
    have htext : "__out.push_str(".toList ++ quote text ++ ");".toList =
        "__out.push_str(\"".toList ++ (text.flatMap escapeChar ++ '"' :: ");".toList) := by
      simp [quote]
    rw [htext]
    change (match textBody? .no (text.flatMap escapeChar ++ '"' :: ");".toList) with
      | some (value, after) => if after = ");".toList then some value else none
      | none => none) = some text
    rw [textBody?_flatMap]
    rfl
  exact (hshows.line hpushed).row depth

theorem showsLines_pushValue {value : Code} (h : Shows value.print ls) (depth : Nat) :
    ShowsLines ((Stmt.pushValue value).lines depth) ls [] :=
  ((h.between "__out.push_str(&to_string_safe(&".toList "));".toList rfl rfl).line rfl).row depth

theorem showsLines_insertion (name : List Char) {value : List Char} (h : Shows value ls)
    (depth : Nat) : ShowsLines [⟨depth, insertion name value⟩] ((.assigned, name) :: ls) [] := by
  have hname := shows_literal "__locals.insert(".toList ".to_string(), ".toList rfl rfl
    (roleOf_of_mem ("__locals.insert(", '.', .assigned) (by decide)) name
  have hend : Shows ");".toList [] := shows_plain rfl
  have hall := hname.append (h.append hend)
  have hshows : Shows (insertion name value) ((.assigned, name) :: ls) := by
    change Shows ("__locals.insert(".toList ++ quote name ++ ".to_string(), ".toList ++ value ++
      ");".toList) _
    rw [List.append_nil, ← List.append_assoc] at hall
    exact hall
  exact (hshows.line rfl).row depth

theorem shows_removal (name : List Char) : Shows (removal name) [(.removed, name)] :=
  shows_literal "__locals.remove(".toList ");".toList rfl rfl
    (roleOf_of_mem ("__locals.remove(", ')', .removed) (by decide)) name

theorem showsLines_letItems {value : Code} (h : Shows value.print ls) (depth : Nat) :
    ShowsLines ((Stmt.letItems value).lines depth) ls [] :=
  ((h.between "let __items = as_list(&".toList ");".toList rfl rfl).line rfl).row depth

theorem showsLines_letShadowed (name : List Char) (depth : Nat) :
    ShowsLines ((Stmt.letShadowed name).lines depth) [(.removed, name)] [] := by
  have hfront : Shows "let __shadowed = ".toList [] := shows_plain rfl
  exact ((hfront.append (shows_removal name)).line rfl).row depth

theorem showsLines_remove (name : List Char) (depth : Nat) :
    ShowsLines ((Stmt.remove name).lines depth) [(.removed, name)] [] :=
  ((shows_removal name).line rfl).row depth

theorem showsLines_letElement {name : List Char} (hname : isIdentifier name = true) (depth : Nat) :
    ShowsLines ((Stmt.letElement name).lines depth) [] [] := by
  have hline := isPlain_of_all (all_isPlainChar_bindingName hname) depth
    "let ".toList " = __items[__i].clone();".toList rfl rfl rfl
  refine showsLines_plain ?_
  rw [Stmt.lines, List.all_cons, hline]
  rfl

theorem showsLines_letLoop (depth : Nat) : ShowsLines (Stmt.letLoop.lines depth) [] [] :=
  showsLines_plain rfl

theorem showsLines_restore (name : List Char) (depth : Nat) :
    ShowsLines ((Stmt.restore name).lines depth) [(.assigned, name)] [] := by
  have hvalue : Shows "__value".toList [] := shows_plain rfl
  exact (showsLines_insertion name hvalue (depth + 1)).between
    [fixed depth "if let Some(__value) = __shadowed \x7b"]
    [fixed depth "\x7d"] rfl rfl

/-- A statement on its own. -/
theorem ShowsLines.statement {s : Stmt} {depth : Nat} (h : ShowsLines (s.lines depth) ls texts) :
    ShowsLines (stmtsLines depth [s]) ls texts := by
  have hall := h.append showsLines_nil
  rwa [List.append_nil ls, List.append_nil texts] at hall

/-- The statements of a loop. -/
theorem ShowsLines.loopBlock {name : List Char} (hname : isIdentifier name = true) {items : Code}
    (hitems : Shows (Code.convert items).print ls) {depth : Nat} {body : List Stmt}
    (hbody : ShowsLines (stmtsLines (depth + 2) body) ms texts) :
    ShowsLines ((Target.loopBlock name items body).lines depth)
      (ls ++ ((.removed, name) :: (.removed, name) :: ms ++ [(.assigned, name)])) texts := by
  have hinner := (showsLines_remove name (depth + 2)).append
    ((showsLines_letElement hname (depth + 2)).append
      ((showsLines_letLoop (depth + 2)).append hbody))
  have hloop := hinner.between [fixed (depth + 1) "for __i in 0..__items.len() \x7b"]
    [fixed (depth + 1) "\x7d"] rfl rfl
  have hblock := (showsLines_letItems hitems (depth + 1)).append
    ((showsLines_letShadowed name (depth + 1)).append
      (hloop.append ((showsLines_restore name (depth + 1)).append showsLines_nil)))
  have hall := hblock.between [fixed depth "\x7b"] [fixed depth "\x7d"] rfl rfl
  have hls : ls ++ ([(.removed, name)] ++ ([(.removed, name)] ++ ([] ++ ([] ++ ms)) ++
      ([(.assigned, name)] ++ []))) =
        ls ++ ((.removed, name) :: (.removed, name) :: ms ++ [(.assigned, name)]) := by simp
  have htexts : [] ++ ([] ++ ([] ++ ([] ++ ([] ++ texts)) ++ ([] ++ []))) = texts := by simp
  rw [hls, htexts] at hall
  exact hall

/-- The line of a condition. -/
theorem showsLines_condition {condition : Code} (h : Shows condition.print ls) (depth : Nat)
    (first : Bool) :
    ShowsLines [⟨depth, (if first then "if " else "\x7d else if ").toList ++ condition.print ++
      " \x7b".toList⟩] ls [] := by
  cases first with
  | true => exact ((h.between "if ".toList " \x7b".toList rfl rfl).line rfl).row depth
  | false => exact ((h.between "\x7d else if ".toList " \x7b".toList rfl rfl).line rfl).row depth

end

/-! ## 5. Templates -/

/-- The literals for the expression of a block. -/
def snippetLiterals (scope : Scope) (s : Snippet) : List (Role × List Char) :=
  match Expr.read s.source with
  | .ok e => exprLiterals scope e
  | .error _ => []

mutual

/-- The literals for a node.  A loop takes the assignment of its variable away before the loop and
in every round, and gives it back at the end. -/
def nodeLiterals (scope : Scope) : Node → List (Role × List Char)
  | .text value => [(.text, value)]
  | .output expr => snippetLiterals scope expr
  | .assign name value => (.assigned, name) :: snippetLiterals scope value
  | .choice arms => armsLiterals scope arms
  | .loop name items body =>
    snippetLiterals scope items ++
      ((.removed, name) :: (.removed, name) :: nodesLiterals (scope.inLoop name) body ++
        [(.assigned, name)])
  | .template _ => []

def nodesLiterals (scope : Scope) : List Node → List (Role × List Char)
  | [] => []
  | n :: rest => nodeLiterals scope n ++ nodesLiterals scope rest

def armsLiterals (scope : Scope) : Arms → List (Role × List Char)
  | .stop => []
  | .otherwise body => nodesLiterals scope body
  | .arm condition body rest =>
    snippetLiterals scope condition ++ (nodesLiterals scope body ++ armsLiterals scope rest)

end

mutual

/-- The texts in a node, in order. -/
def nodeTexts : Node → List (List Char)
  | .text value => [value]
  | .choice arms => armsTexts arms
  | .loop _ _ body => nodesTexts body
  | _ => []

def nodesTexts : List Node → List (List Char)
  | [] => []
  | n :: rest => nodeTexts n ++ nodesTexts rest

def armsTexts : Arms → List (List Char)
  | .stop => []
  | .otherwise body => nodesTexts body
  | .arm _ body rest => nodesTexts body ++ armsTexts rest

end

theorem shows_snippet {s : Snippet} {c : Code} (h : compileSnippet scope s = .ok c) :
    Shows c.print (snippetLiterals scope s) := by
  obtain ⟨e, hread, rfl⟩ := eq_lower_of_compileSnippet h
  rw [snippetLiterals, hread]
  exact shows_lower (Expr.shaped_of_read hread)

-- The induction is over nodes, lists of nodes and arms at once, as in the compiler; only the scope
-- and the depth change on the way.
mutual

theorem showsLines_node (scope : Scope) (depth : Nat) (n : Node) (ss : List Stmt)
    (h : compileNode scope n = .ok ss) (hn : n.WellFormed) :
    ShowsLines (stmtsLines depth ss) (nodeLiterals scope n) (nodeTexts n) := by
  cases n with
  | text value =>
    -- an empty text would be left out, but reading gives none
    have hne : value.isEmpty = false := by
      rw [List.isEmpty_eq_false_iff]
      exact hn.1
    rw [compileNode, hne] at h
    cases h
    exact (showsLines_pushText depth value).statement
  | output expr =>
    obtain ⟨code, hcode, rfl⟩ := eq_pushValue_of_compileNode h
    exact (showsLines_pushValue ((composes_shows scope).convert (shows_snippet hcode)) depth).statement
  | assign name value =>
    obtain ⟨code, hcode, rfl⟩ := eq_insert_of_compileNode h
    have hline := showsLines_insertion name ((composes_shows scope).convert (shows_snippet hcode)) depth
    exact ShowsLines.statement (s := .insert name (.convert code)) hline
  | choice arms =>
    obtain ⟨compiled, harms, rfl⟩ := eq_choose_of_compileNode h
    have hall := showsLines_arms scope depth true arms compiled harms hn.2
    exact ShowsLines.statement (s := .choose compiled) hall
  | loop name items body =>
    obtain ⟨code, inner, hcode, hinner, rfl⟩ := eq_loopBlock_of_compileNode h
    have hbody := showsLines_nodes (scope.inLoop name) (depth + 2) body inner hinner hn.2.2
    have hitems := (composes_shows scope).convert (shows_snippet hcode)
    exact (ShowsLines.loopBlock hn.1 hitems hbody).statement
  | template children => cases h

theorem showsLines_nodes (scope : Scope) (depth : Nat) (ns : List Node) (ss : List Stmt)
    (h : compileNodes scope ns = .ok ss) (hns : NodesWellFormed ns) :
    ShowsLines (stmtsLines depth ss) (nodesLiterals scope ns) (nodesTexts ns) := by
  cases ns with
  | nil =>
    cases h
    exact showsLines_nil
  | cons n rest =>
    obtain ⟨first, more, hfirst, hmore, rfl⟩ := eq_append_of_compileNodes h
    rw [stmtsLines_append]
    exact (showsLines_node scope depth n first hfirst hns.1).append
      (showsLines_nodes scope depth rest more hmore hns.2)

theorem showsLines_arms (scope : Scope) (depth : Nat) (first : Bool) (arms : Arms)
    (compiled : StmtArms) (h : compileArms scope arms = .ok compiled)
    (harms : ArmsWellFormed arms) :
    ShowsLines (armsLines depth first compiled) (armsLiterals scope arms) (armsTexts arms) := by
  cases arms with
  | stop =>
    cases h
    exact showsLines_plain rfl
  | otherwise body =>
    obtain ⟨inner, hinner, rfl⟩ := eq_otherwise_of_compileArms h
    have hbody := showsLines_nodes scope (depth + 1) body inner hinner harms
    exact hbody.between [fixed depth "\x7d else \x7b"] [fixed depth "\x7d"]
      rfl rfl
  | arm condition body rest =>
    obtain ⟨code, inner, more, hcode, hinner, hmore, rfl⟩ := eq_arm_of_compileArms h
    have htruth := (composes_shows scope).truthOf (shows_snippet hcode)
    have hcondition := showsLines_condition htruth depth first
    have hbody := showsLines_nodes scope (depth + 1) body inner hinner harms.2.1
    have hrest := showsLines_arms scope depth false rest more hmore harms.2.2
    exact hcondition.append (hbody.append hrest)

end

/-! ## 6. Files -/

theorem isIdentChar_of_mem_sanitize {name : List Char} {c : Char} (h : c ∈ sanitize name) :
    isIdentChar c = true ∨ c = '-' := by
  unfold sanitize at h
  split at h
  · have hdefault : ∀ c ∈ defaultName, isIdentChar c = true := forall_mem_of_all (by decide)
    exact .inl (hdefault c h)
  · have hkept := (List.mem_filter.1 h).2
    simpa using hkept

/-- The characters of a type belong to every class that has those of names. -/
theorem all_typeName {p : Char → Bool} (hp : ∀ c, isIdentChar c = true → p c = true)
    (name : List Char) : (typeName name).all p = true := by
  have hident : ((sanitize name).map fun c => if c == '-' then '_' else c).all p = true := by
    rw [List.all_map, List.all_eq_true]
    intro c hc
    rcases isIdentChar_of_mem_sanitize hc with hc | rfl
    · have hne : c ≠ '-' := by
        rintro rfl
        exact absurd hc (by decide)
      simpa [hne] using hp c hc
    · exact hp '_' rfl
  have hunderscore : p '_' = true := hp '_' rfl
  unfold typeName
  simp only
  split
  · rw [List.all_cons, hident, hunderscore]
    rfl
  split
  · rw [List.all_append, hident]
    simpa using hunderscore
  · exact hident

theorem all_isPlainChar_typeName (name : List Char) : (typeName name).all isPlainChar = true :=
  all_typeName (fun _ => isPlainChar_of_isIdentChar) name

/-- Texts with commas between them belong to every class that they and the commas belong to. -/
theorem all_commaSeparated {p : Char → Bool} (hcomma : ", ".toList.all p = true)
    {texts : List (List Char)} (h : ∀ t ∈ texts, t.all p = true) :
    (commaSeparated texts).all p = true := by
  induction texts with
  | nil => rfl
  | cons t texts ih =>
    have hrest := ih fun t' ht' => h t' (List.mem_cons_of_mem _ ht')
    have ht := h t (List.mem_cons_self ..)
    cases texts with
    | nil => simpa [commaSeparated, List.intercalate] using ht
    | cons t' texts =>
      have heq : commaSeparated (t :: t' :: texts) =
          t ++ (", ".toList ++ commaSeparated (t' :: texts)) := by
        simp [commaSeparated, List.intercalate]
      rw [heq, List.all_append, List.all_append, ht, hcomma, hrest]
      rfl

theorem showsLines_contextLines {fields : List (List Char)}
    (h : ∀ f ∈ fields, isIdentifier f = true) : ShowsLines (contextLines fields) [] [] := by
  have hnames : ∀ n ∈ fields.map bindingName, n.all isPlainChar = true := by
    intro n hn
    obtain ⟨f, hf, rfl⟩ := List.mem_map.1 hn
    exact all_isPlainChar_bindingName (h f hf)
  have hparameters : ∀ t ∈ (fields.map bindingName).map (· ++ ": Value".toList),
      t.all isPlainChar = true := by
    intro t ht
    obtain ⟨n, hn, rfl⟩ := List.mem_map.1 ht
    rw [List.all_append, hnames n hn]
    rfl
  have hfields : ((fields.map bindingName).map
      fun n => Line.mk 1 ("pub ".toList ++ n ++ ": Value,".toList)).all Line.isPlain = true := by
    rw [List.all_map, List.all_eq_true]
    exact fun n hn => isPlain_of_all (hnames n hn) 1 _ _ rfl rfl rfl
  have hnew := isPlain_of_all (all_commaSeparated rfl hparameters) 1
    "pub fn new(".toList ") -> Self \x7b".toList rfl rfl rfl
  have hself := isPlain_of_all (all_commaSeparated rfl hnames) 2
    "Self \x7b ".toList " \x7d".toList rfl rfl rfl
  have hcomment : ∀ c ∈ "/ Inputs available to the template.".toList, isPrintable c = true :=
    forall_mem_of_all (by decide)
  have hrest : (contextLines fields).tail.all Line.isPlain = true := by
    simp only [contextLines, List.cons_append, List.tail_cons, List.all_append, List.all_cons,
      hfields, hnew, hself]
    decide +kernel
  exact ((showsLine_comment hcomment).row 0).append (showsLines_plain hrest)

/-- The characters of a renderer's title can be seen. -/
theorem isPrintable_of_mem_title (name : List Char) : ∀ c ∈ "/ Renderer for the `".toList ++
    sanitize name ++ "` chat template.".toList, isPrintable c = true := by
  have hfront : ∀ c ∈ "/ Renderer for the `".toList, isPrintable c = true :=
    forall_mem_of_all (by decide)
  have hend : ∀ c ∈ "` chat template.".toList, isPrintable c = true :=
    forall_mem_of_all (by decide)
  intro c hc
  rw [List.mem_append, List.mem_append] at hc
  rcases hc with (hc | hc) | hc
  · exact hfront c hc
  · rcases isIdentChar_of_mem_sanitize hc with hc | rfl
    · exact isPrintable_of_isPlainChar (isPlainChar_of_isIdentChar hc)
    · rfl
  · exact hend c hc

theorem showsLines_rendererLines (name : List Char) {body : List Stmt}
    {ls : List (Role × List Char)} {texts : List (List Char)}
    (h : ShowsLines (stmtsLines 2 body) ls texts) :
    ShowsLines (rendererLines name body) ls texts := by
  have htype := all_isPlainChar_typeName name
  have hstruct := isPlain_of_all htype 0 "pub struct ".toList ";".toList rfl rfl rfl
  have himpl := isPlain_of_all htype 0 "impl ".toList " \x7b".toList rfl rfl rfl
  have hall := h.between
    [fixed 0 "#[allow(non_camel_case_types)]",
      ⟨0, "pub struct ".toList ++ typeName name ++ ";".toList⟩, fixed 0 "",
      ⟨0, "impl ".toList ++ typeName name ++ " \x7b".toList⟩,
      fixed 1 "#[allow(unused_mut, unused_variables, clippy::all)]",
      fixed 1 "pub fn render(context: &TemplateContext) -> String \x7b",
      fixed 2 "let mut __out = String::new();",
      fixed 2 "let mut __locals: HashMap<String, Value> = HashMap::new();"]
    [fixed 2 "__out", fixed 1 "\x7d", fixed 0 "\x7d"]
    (by simp only [List.all_cons, hstruct, himpl]; decide +kernel) rfl
  exact ((showsLine_comment (isPrintable_of_mem_title name)).row 0).append hall

/-- **Nothing that a template holds leaves its literal.**  The code after the prelude can be taken
apart into literals, comments and other characters.  Every literal stands on one line, and all else
is printable ASCII or the end of a line.  The lines that only write a literal are those for the
texts of the template, one for each, in order.  The literals, each with the role that the code
around it gives to it, are those that the nodes of the template ask for, in order. -/
theorem compile_contained (fields : List (List Char)) (name template text : List Char)
    (h : compile fields name template = .ok text) :
    ∃ nodes rest fs, parse template = .ok nodes ∧
      text = printLines headerLines ++ preludeText ++ rest ∧
      fragments none rest = some fs ∧ fs.flatMap Fragment.written = rest ∧
      (∀ f ∈ fs, f = .code '\n' ∨ f.Orderly) ∧
      (linesOf rest).filterMap pushed? = nodesTexts nodes ∧
      literals [] fs = nodesLiterals ⟨fields, []⟩ nodes := by
  unfold compile at h
  split at h
  · cases h
  · rename_i hfields
    obtain ⟨nodes, hparse, h⟩ := eq_ok_of_bind h
    obtain ⟨body, hbody, h⟩ := eq_ok_of_bind h
    cases h
    have hidentifiers : ∀ f ∈ fields, isIdentifier f = true := by
      intro f hf
      simpa using List.find?_eq_none.1 hfields f hf
    have hlines := showsLines_nodes ⟨fields, []⟩ 2 nodes body hbody (wellFormed_of_parse hparse)
    have hempty : ShowsLines [fixed 0 ""] [] [] := showsLines_plain rfl
    have hall := (hempty.append (showsLines_contextLines hidentifiers)).append
      (showsLines_rendererLines name hlines)
    obtain ⟨fs, hreads, horderly, hholds⟩ := hall.laid
    have hpushed := hall.pushed []
    rw [List.append_nil] at hpushed
    have hfragments := hreads.fragments_eq
    refine ⟨nodes, _, fs, hparse, ?_, hfragments, written_fragments hfragments, horderly, ?_,
      hholds.literals_eq⟩
    · rw [printLines_append, printLines_append]
      simp only [fileText, List.append_assoc]
    · rw [hpushed]
      exact List.append_nil _

/-- A template with quotation marks, backslashes, line breaks and comment marks in its text, in a
constant and in the argument of a filter. -/
def markedTemplate : List Char :=
  ("\"); */ \\\n\x7b% set x = 'a\"\\n*/' | shout('\"') %\x7d" ++
    "\x7b% for m in rows %\x7d\x7b\x7b m.k \x7d\x7d//\x7b% endfor %\x7d").toList

/-- The literals of its code. -/
def markedLiterals : List (Role × List Char) :=
  [(.text, "\"); */ \\\n".toList), (.assigned, ['x']), (.constant, "a\"\n*/".toList),
   (.removed, ['m']), (.removed, ['m']), (.variable, ['m']), (.attribute, ['k']),
   (.text, "//".toList), (.assigned, ['m'])]

/-- The theorem at such a template. -/
theorem compile_contained_marks :
    ∃ text, compile ["rows".toList] "a/b \n".toList markedTemplate = .ok text ∧
      ∃ rest fs, text = printLines headerLines ++ preludeText ++ rest ∧
        fragments none rest = some fs ∧ fs.flatMap Fragment.written = rest ∧
        (∀ f ∈ fs, f = .code '\n' ∨ f.Orderly) ∧
        (linesOf rest).filterMap pushed? = ["\"); */ \\\n".toList, "//".toList] ∧
        literals [] fs = markedLiterals := by
  have hsome : (compile ["rows".toList] "a/b \n".toList markedTemplate).toOption.isSome = true := by
    decide +kernel
  cases h : compile ["rows".toList] "a/b \n".toList markedTemplate with
  | error e =>
    rw [h] at hsome
    cases hsome
  | ok text =>
    obtain ⟨nodes, rest, fs, hparse, htext, hfragments, hwritten, horderly, hpushed, hliterals⟩ :=
      compile_contained _ _ _ text h
    have hnodes : (parse markedTemplate).toOption.map (fun ns =>
        (nodesTexts ns, nodesLiterals ⟨["rows".toList], []⟩ ns)) =
      some (["\"); */ \\\n".toList, "//".toList], markedLiterals) := by
      decide +kernel
    rw [hparse] at hnodes
    injection hnodes with hnodes
    injection hnodes with htexts hroles
    exact ⟨text, rfl, rest, fs, htext, hfragments, hwritten, horderly, hpushed.trans htexts,
      hliterals.trans hroles⟩

end TemplateCompiler.Target
