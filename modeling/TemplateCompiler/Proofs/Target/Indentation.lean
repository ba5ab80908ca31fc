import TemplateCompiler.Proofs.Target.Brackets

/-! # Indentation shows the blocks

Generated code is read by people, and they go by its indentation.  Main statement: the indentation
is right (`compile_indented`).  At the start of every line nothing is open but braces, and the line
is indented by four blanks for each of them; a brace that the line closes first does not count.  At
the end of the file nothing is open.

Each line says how many braces are open before and after it (`RowFits`).  Lines follow one another
if the numbers fit (`Nested`), so a block is a line that opens a brace, lines at the next depth, and
a line that closes it.  Every line of a statement holds one whole statement, or the head or the end
of one (`OneStatement`): nothing goes on in the next line, and nothing follows on the same line.
-/

namespace TemplateCompiler.Target

open Text Reading Template

/-! ## 1. Lines of a text -/

/-- The blanks that a line starts with. -/
def indentation (line : List Char) : Nat := (line.takeWhile (· == ' ')).length

/-- Whether a line closes a brace before anything else. -/
def closesFirst (line : List Char) : Bool := (line.dropWhile (· == ' ')).head? == some '}'

/-- The text of some lines that have all ended. -/
def joinLines (lines : List (List Char)) : List Char := lines.flatMap (· ++ ['\n'])

/-- Some open braces and nothing else. -/
def braces (n : Nat) : List Char := List.replicate n '}'

/-- A line without its end, as it stands in the text. -/
def Line.written (l : Line) : List Char :=
  if l.text.isEmpty then [] else List.replicate (4 * l.depth) ' ' ++ l.text

theorem Line.print_eq (l : Line) : l.print = l.written ++ ['\n'] := by
  rw [Line.print, Line.written]
  split <;> rfl

/-- Blanks, the text and the end of the line. -/
theorem Line.exists_print_eq (l : Line) :
    ∃ k, l.print = List.replicate k ' ' ++ l.text ++ ['\n'] := by
  rw [Line.print]
  split
  · rename_i hempty
    refine ⟨0, ?_⟩
    rw [List.isEmpty_iff.1 hempty]
    rfl
  · exact ⟨4 * l.depth, rfl⟩

theorem all_isFlat_blanks (k : Nat) : (List.replicate k ' ').all isFlat = true := by
  rw [List.all_eq_true]
  intro c hc
  obtain rfl := List.eq_of_mem_replicate hc
  rfl

theorem joinLines_written (rows : List Line) :
    joinLines (rows.map Line.written) = printLines rows := by
  induction rows with
  | nil => rfl
  | cons l rows ih =>
    rw [List.map_cons, joinLines, List.flatMap_cons, ← joinLines, ih, ← Line.print_eq]
    rfl

/-! ## 2. One line -/

/-- A line that stands where `n` braces are open, and after which `m` are: its depth is the number
of braces that are open, without the one that it closes first. -/
structure RowFits (n : Nat) (l : Line) (m : Nat) : Prop where
  reads : ∃ fs, Reads l.print fs ∧ nest (braces n) (skeleton fs) = some (braces m)
  newline : '\n' ∉ l.text
  depth : l.text ≠ [] →
    l.depth = n - (if l.text.head? = some '}' then 1 else 0) ∧ l.text.head? ≠ some ' '

/-- A text that holds one whole statement, the head of a block or its end.  Its round and square
brackets are closed, a semicolon stands only at its end, and it ends with a semicolon or an opening
brace, unless it only closes a brace. -/
structure HoldsOne (sk : List Char) : Prop where
  closed : Balanced (sk.filter fun c => c != '{' && c != '}')
  single : ';' ∉ sk.dropLast
  ends : sk.getLast? = some ';' ∨ sk.getLast? = some '{' ∨ sk = ['}']

/-- A line of code that holds one statement, or the head or the end of one. -/
def OneStatement (text : List Char) : Prop :=
  ∃ fs, fragments none text = some fs ∧ HoldsOne (skeleton fs)

section
variable {cs text sk : List Char} {n m : Nat}

theorem reads_newline : Reads ['\n'] [.code '\n'] :=
  fun before rest => ⟨some '\n', fragments_bare rfl before rest⟩

/-- A line of code, from its skeleton. -/
theorem Skeletal.rowFits (h : Skeletal text sk) (hnest : nest (braces n) sk = some (braces m))
    {depth : Nat} (hdepth : text ≠ [] →
      depth = n - (if text.head? = some '}' then 1 else 0) ∧ text.head? ≠ some ' ') :
    RowFits n ⟨depth, text⟩ m := by
  obtain ⟨fs, htaken, hsk⟩ := h
  refine ⟨?_, htaken.not_mem_newline, hdepth⟩
  obtain ⟨k, hprint⟩ := Line.exists_print_eq ⟨depth, text⟩
  have hblanks := all_isFlat_blanks k
  have hreads := (taken_plain (all_isPlainChar_of_flat hblanks)).reads
  have hline := (hreads.append htaken.reads).append reads_newline
  rw [← hprint] at hline
  refine ⟨_, hline, ?_⟩
  have hindent := (neutral_of_flat hblanks).balanced.nest_eq (braces n)
  rw [skeleton_append, skeleton_append, skeleton_code, hsk, nest_append, nest_append, hindent,
    Option.bind_some, hnest]
  rfl

theorem Balanced.rowFits (h : Balanced sk) (hskeletal : Skeletal text sk)
    (hhead : text.head? ≠ some '}' ∧ text.head? ≠ some ' ') (depth : Nat) :
    RowFits depth ⟨depth, text⟩ depth := by
  refine hskeletal.rowFits (h.nest_eq _) fun _ => ⟨?_, hhead.2⟩
  rw [if_neg hhead.1]
  rfl

/-- An empty line fits anywhere. -/
theorem rowFits_empty (n depth : Nat) : RowFits n ⟨depth, []⟩ n :=
  (skeletal_plain rfl).rowFits rfl fun h => absurd rfl h

/-- A line that is a comment. -/
theorem rowFits_comment {note : List Char} (h : ∀ c ∈ note, isPrintable c = true) (depth : Nat) :
    RowFits depth ⟨depth, '/' :: '/' :: note⟩ depth := by
  have hnewline : '\n' ∉ note := fun hmem => absurd (h '\n' hmem) (by decide)
  have hblanks := all_isFlat_blanks (4 * depth)
  refine ⟨⟨(List.replicate (4 * depth) ' ').map .code ++
    [.comment ('/' :: '/' :: note), .code '\n'], ?_, ?_⟩, by simp [hnewline],
    fun _ => ⟨rfl, by simp⟩⟩
  · intro before rest
    refine ⟨some '\n', ?_⟩
    have hcomment (before : Option Char) := fragments_lineComment hnewline before rest
    simp only [fragments_bare (c := '\n') rfl none rest] at hcomment
    have hprint : Line.print ⟨depth, '/' :: '/' :: note⟩ ++ rest =
        List.replicate (4 * depth) ' ' ++ '/' :: '/' :: (note ++ '\n' :: rest) := by
      simp [Line.print]
    rw [hprint, fragments_plain (all_isPlainChar_of_flat hblanks), hcomment]
    cases fragments (some '\n') rest <;> simp
  · have hbalanced : Balanced ['/', '/', '\n'] := by decide
    have hindent := (neutral_of_flat hblanks).balanced.nest_eq (braces depth)
    rw [skeleton_append, skeleton_code, nest_append, hindent]
    exact hbalanced.nest_eq (braces depth)

end

/-! ## 3. Lines after one another -/

/-- Lines that stand where `n` braces are open, and after which `m` are. -/
inductive Nested : Nat → List Line → Nat → Prop
  | nil (n : Nat) : Nested n [] n
  | cons {n m k : Nat} {l : Line} {rows : List Line} (hl : RowFits n l m) (h : Nested m rows k) :
      Nested n (l :: rows) k

/-- Lines of statements. -/
structure Lays (n : Nat) (rows : List Line) (m : Nat) : Prop where
  nested : Nested n rows m
  single : ∀ l ∈ rows, OneStatement l.text

section
variable {n m k : Nat} {l : Line} {rows more : List Line}

theorem RowFits.nested (h : RowFits n l m) : Nested n [l] m := .cons h (.nil m)

theorem Nested.append (h : Nested n rows m) (h' : Nested m more k) : Nested n (rows ++ more) k := by
  induction h with
  | nil n => exact h'
  | cons hl _ ih => exact .cons hl (ih h')

/-- **The text of nested lines** opens and closes braces as its lines do. -/
theorem Nested.reads (h : Nested n rows m) :
    ∃ fs, Reads (printLines rows) fs ∧ nest (braces n) (skeleton fs) = some (braces m) := by
  induction h with
  | nil n => exact ⟨[], reads_nil, rfl⟩
  | cons hl _ ih =>
    obtain ⟨fs, hreads, hnest⟩ := hl.reads
    obtain ⟨gs, hreads', hnest'⟩ := ih
    refine ⟨fs ++ gs, hreads.append hreads', ?_⟩
    rw [skeleton_append, nest_append, hnest, Option.bind_some, hnest']

theorem Nested.linesOf_eq (h : Nested n rows m) (rest : List Char) :
    linesOf (printLines rows ++ rest) = rows.map Line.written ++ linesOf rest := by
  induction h with
  | nil n => rfl
  | @cons n m k l rows hl _ ih =>
    have hnewline : '\n' ∉ l.written := by
      rw [Line.written]
      split
      · simp
      · rw [List.mem_append]
        rintro (hmem | hmem)
        · exact absurd (List.eq_of_mem_replicate hmem) (by decide)
        · exact hl.newline hmem
    have htext :
        printLines (l :: rows) ++ rest = l.written ++ '\n' :: (printLines rows ++ rest) := by
      rw [printLines, List.flatMap_cons, ← printLines, Line.print_eq]
      simp
    rw [htext, linesOf_append hnewline, ih, List.map_cons, List.cons_append]

/-- **A line is indented by the braces that are open.** -/
theorem RowFits.indentation_eq (h : RowFits n l m) (hne : l.written ≠ []) :
    indentation l.written = 4 * (n - if closesFirst l.written then 1 else 0) := by
  have htext : l.text ≠ [] := by
    intro hempty
    rw [Line.written, hempty] at hne
    exact hne rfl
  obtain ⟨hdepth, hblank⟩ := h.depth htext
  have hwritten : l.written = List.replicate (4 * l.depth) ' ' ++ l.text := by
    rw [Line.written, if_neg (by simpa using htext)]
  have hhead : ∀ c ∈ l.text.head?, (c == ' ') = false := by
    intro c hc
    rw [beq_eq_false_iff_ne]
    rintro rfl
    exact hblank hc
  have hall : ∀ c ∈ List.replicate (4 * l.depth) ' ', (c == ' ') = true := by
    intro c hc
    rw [List.eq_of_mem_replicate hc]
    rfl
  obtain ⟨htake, hdrop⟩ := takeWhile_append_of_head hall hhead
  rw [indentation, closesFirst, hwritten, htake, hdrop, List.length_replicate, hdepth]
  by_cases hclose : l.text.head? = some '}' <;> simp [hclose]

/-- **The indentation of any line** of a text of nested lines: the lines before it leave some braces
open, and they say how far it is indented. -/
theorem Nested.indented (h : Nested n rows k) {before after : List (List Char)} {line : List Char}
    (hlines : rows.map Line.written ++ [[]] = before ++ line :: after) :
    ∃ front m, before = front.map Line.written ∧ Nested n front m ∧
      (line ≠ [] → indentation line = 4 * (m - if closesFirst line then 1 else 0)) := by
  induction h generalizing before with
  | nil n =>
    -- only the empty line at the end is left
    cases before with
    | nil =>
      injection hlines with hline
      exact ⟨[], n, rfl, .nil n, fun hne => absurd hline.symm hne⟩
    | cons b before => simp at hlines
  | @cons n m k l rows hl _ ih =>
    cases before with
    | nil =>
      injection hlines with hline
      subst hline
      exact ⟨[], n, rfl, .nil n, hl.indentation_eq⟩
    | cons b before =>
      injection hlines with hfirst hrest
      obtain ⟨front, m', rfl, hfront, hline⟩ := ih hrest
      subst hfirst
      exact ⟨l :: front, m', rfl, .cons hl hfront, hline⟩

theorem lays_nil (n : Nat) : Lays n [] n := ⟨.nil n, by simp⟩

theorem Lays.append (h : Lays n rows m) (h' : Lays m more k) : Lays n (rows ++ more) k := by
  refine ⟨h.nested.append h'.nested, ?_⟩
  intro l hl
  rcases List.mem_append.1 hl with hl | hl
  · exact h.single l hl
  · exact h'.single l hl

theorem RowFits.lays (h : RowFits n l m) (hsingle : OneStatement l.text) : Lays n [l] m := by
  refine ⟨h.nested, ?_⟩
  intro l' hl'
  obtain rfl := List.mem_singleton.1 hl'
  exact hsingle

end

/-! ## 4. The four forms of lines -/

/-- Whether a text starts with something that is neither a blank nor a closing brace. -/
def leads (cs : List Char) : Bool := cs.head?.any fun c => c != ' ' && c != '}'

section
variable {cs sk : List Char}

theorem head?_of_leads (h : leads cs = true) :
    cs.head? ≠ some '}' ∧ cs.head? ≠ some ' ' := by
  cases cs with
  | nil => cases h
  | cons c cs =>
    simp only [leads, List.head?_cons, Option.any_some, Bool.and_eq_true, bne_iff_ne] at h
    simp [h]

theorem Skeletal.oneStatement {text : List Char} (h : Skeletal text sk) (hone : HoldsOne sk) :
    OneStatement text := by
  obtain ⟨fs, htaken, rfl⟩ := h
  exact ⟨fs, htaken.reads.fragments_eq, hone⟩

theorem Neutral.filter_eq (h : Neutral sk) : sk.filter (fun c => c != '{' && c != '}') = sk := by
  rw [List.filter_eq_self]
  intro c hc
  have hinner := List.all_eq_true.1 h.inner c hc
  simp only [isInner, Bool.and_eq_true] at hinner
  rw [hinner.1.2, hinner.2]
  rfl

theorem Neutral.semicolon (h : Neutral sk) : ';' ∉ sk := by
  intro hmem
  exact absurd (List.all_eq_true.1 h.inner ';' hmem) (by decide)

/-- A whole statement. -/
theorem Closed.statement (h : Closed cs) (hlead : leads (cs ++ [';']) = true) (depth : Nat) :
    Lays depth [⟨depth, cs ++ [';']⟩] depth := by
  obtain ⟨sk, hskeletal, hneutral⟩ := h
  have hline : Skeletal (cs ++ [';']) (sk ++ [';']) := hskeletal.append (skeletal_plain rfl)
  have hend : Balanced [';'] := by decide
  have hbalanced : Balanced (sk ++ [';']) := hneutral.balanced.append hend
  refine (hbalanced.rowFits hline (head?_of_leads hlead) depth).lays (hline.oneStatement ?_)
  constructor
  · rw [List.filter_append, hneutral.filter_eq]
    exact hbalanced
  · simpa using hneutral.semicolon
  · exact .inl (by simp)

/-- The head of a block. -/
theorem Closed.opening (h : Closed cs) (hlead : leads (cs ++ ['{']) = true) (depth : Nat) :
    Lays depth [⟨depth, cs ++ ['{']⟩] (depth + 1) := by
  obtain ⟨sk, hskeletal, hneutral⟩ := h
  have hline : Skeletal (cs ++ ['{']) (sk ++ ['{']) := hskeletal.append (skeletal_plain rfl)
  have hnest : nest (braces depth) (sk ++ ['{']) = some (braces (depth + 1)) := by
    rw [nest_append, hneutral.balanced.nest_eq]
    rfl
  have hhead := head?_of_leads hlead
  refine (hline.rowFits hnest fun _ => ⟨?_, hhead.2⟩).lays (hline.oneStatement ?_)
  · rw [if_neg hhead.1]
    rfl
  · constructor
    · rw [List.filter_append, hneutral.filter_eq]
      simpa using hneutral.balanced
    · simpa using hneutral.semicolon
    · exact .inr (.inl (by simp))

/-- The end of a block and the head of the next one. -/
theorem Closed.reopening (h : Closed cs) (depth : Nat) :
    Lays (depth + 1) [⟨depth, '}' :: cs ++ ['{']⟩] (depth + 1) := by
  obtain ⟨sk, hskeletal, hneutral⟩ := h
  have hclose : Skeletal ['}'] ['}'] := skeletal_plain rfl
  have hline : Skeletal ('}' :: cs ++ ['{']) ('}' :: sk ++ ['{']) :=
    (hclose.append hskeletal).append (skeletal_plain rfl)
  have hnest : nest (braces (depth + 1)) ('}' :: sk ++ ['{']) = some (braces (depth + 1)) := by
    change nest (braces depth) (sk ++ ['{']) = _
    rw [nest_append, hneutral.balanced.nest_eq]
    rfl
  refine (hline.rowFits hnest fun _ => ⟨rfl, by simp⟩).lays (hline.oneStatement ?_)
  constructor
  · rw [List.cons_append, List.filter_cons, List.filter_append, hneutral.filter_eq]
    simpa using hneutral.balanced
  · rw [List.dropLast_concat]
    simpa using hneutral.semicolon
  · exact .inr (.inl List.getLast?_concat)

/-- The end of a block. -/
theorem lays_closing (depth : Nat) : Lays (depth + 1) [⟨depth, ['}']⟩] depth := by
  have hline : Skeletal ['}'] ['}'] := skeletal_plain rfl
  refine (hline.rowFits rfl fun _ => ⟨rfl, by simp⟩).lays (hline.oneStatement ?_)
  constructor
  · decide
  · decide
  · exact .inr (.inr rfl)

/-- A block: its head, its lines and its end. -/
theorem Lays.block {n m : Nat} {head : Line} {rows : List Line} (hhead : Lays n [head] (m + 1))
    (h : Lays (m + 1) rows (m + 1)) : Lays n (head :: rows ++ [fixed m "\x7d"]) m :=
  (hhead.append h).append (lays_closing m)

end

/-! ## 5. Statements -/

section
variable {scope : Scope}

theorem lays_pushText (depth : Nat) (text : List Char) :
    Lays depth ((Stmt.pushText text).lines depth) depth := by
  have hcall := closed_literal "__out.push_str(".toList [')'] rfl rfl (by decide) text
  have hline := hcall.statement rfl depth
  rw [List.append_assoc] at hline
  exact hline

theorem lays_pushValue {value : Code} (h : Closed value.print) (depth : Nat) :
    Lays depth ((Stmt.pushValue value).lines depth) depth := by
  have hcall := h.between "__out.push_str(&to_string_safe(&".toList "))".toList rfl rfl (by decide)
  have hline := hcall.statement rfl depth
  rw [List.append_assoc] at hline
  exact hline

theorem lays_insertion (name : List Char) {value : List Char} (h : Closed value) (depth : Nat) :
    Lays depth [⟨depth, insertion name value⟩] depth := by
  have hname : Skeletal ("__locals.insert(".toList ++ quote name ++ ".to_string(), ".toList)
      "__locals.insert(\"\".to_string(), ".toList := skeletal_literal rfl rfl name
  have hend : Skeletal [')'] [')'] := skeletal_plain rfl
  have hcall := h.within hname hend (by decide)
  have hline := hcall.statement rfl depth
  rw [List.append_assoc] at hline
  exact hline

theorem closed_removal (name : List Char) :
    Closed ("__locals.remove(".toList ++ quote name ++ [')']) :=
  closed_literal _ _ rfl rfl (by decide) name

theorem lays_remove (name : List Char) (depth : Nat) :
    Lays depth ((Stmt.remove name).lines depth) depth := by
  have hline := (closed_removal name).statement rfl depth
  rw [List.append_assoc] at hline
  exact hline

theorem lays_letShadowed (name : List Char) (depth : Nat) :
    Lays depth ((Stmt.letShadowed name).lines depth) depth := by
  have hfront : Closed "let __shadowed = ".toList := closed_flat rfl
  have hline := (hfront.append (closed_removal name)).statement rfl depth
  rw [List.append_assoc, List.append_assoc] at hline
  exact hline

theorem lays_letItems {value : Code} (h : Closed value.print) (depth : Nat) :
    Lays depth ((Stmt.letItems value).lines depth) depth := by
  have hcall := h.between "let __items = as_list(&".toList [')'] rfl rfl (by decide)
  have hline := hcall.statement rfl depth
  rw [List.append_assoc] at hline
  exact hline

theorem lays_letElement {name : List Char} (hname : isIdentifier name = true) (depth : Nat) :
    Lays depth ((Stmt.letElement name).lines depth) depth := by
  have hflat := all_bindingName (fun _ => isFlat_of_isIdentChar) rfl hname
  have hlet := (closed_flat hflat).between "let ".toList " = __items[__i].clone()".toList rfl rfl
    (by decide)
  have hline := hlet.statement rfl depth
  rw [List.append_assoc] at hline
  exact hline

/-- A statement that is fixed. -/
theorem lays_fixed (front : List Char) {text : String} (htext : text.toList = front ++ [';'])
    (hplain : front.all isPlainChar = true) (hneutral : Neutral front)
    (hlead : leads (front ++ [';']) = true) (depth : Nat) :
    Lays depth [fixed depth text] depth := by
  rw [fixed, htext]
  exact (closed_fixed front hplain hneutral).statement hlead depth

theorem lays_letLoop (depth : Nat) : Lays depth (Stmt.letLoop.lines depth) depth :=
  lays_fixed "let r#loop = Value::from(LoopInfo::new(__i, __items.len()))".toList
    (by decide +kernel) (by decide +kernel) (by decide +kernel) rfl depth

theorem lays_restore (name : List Char) (depth : Nat) :
    Lays depth ((Stmt.restore name).lines depth) depth := by
  have hcondition : Closed "if let Some(__value) = __shadowed ".toList :=
    closed_fixed _ rfl (by decide)
  have hvalue : Closed "__value".toList := closed_flat rfl
  exact (hcondition.opening rfl depth).block (lays_insertion name hvalue (depth + 1))

theorem Lays.statement {s : Stmt} {depth : Nat} (h : Lays depth (s.lines depth) depth) :
    Lays depth (stmtsLines depth [s]) depth := h.append (lays_nil depth)

/-- The statements of a loop. -/
theorem Lays.loopBlock {name : List Char} (hname : isIdentifier name = true) {items : Code}
    (hitems : Closed (Code.convert items).print) {depth : Nat} {body : List Stmt}
    (hbody : Lays (depth + 2) (stmtsLines (depth + 2) body) (depth + 2)) :
    Lays depth ((Target.loopBlock name items body).lines depth) depth := by
  have hround := (lays_remove name (depth + 2)).append
    ((lays_letElement hname (depth + 2)).append ((lays_letLoop (depth + 2)).append hbody))
  have hhead : Closed "for __i in 0..__items.len() ".toList := closed_fixed _ rfl (by decide)
  have hloop := (hhead.opening rfl (depth + 1)).block hround
  have hblock := (lays_letItems hitems (depth + 1)).append
    ((lays_letShadowed name (depth + 1)).append
      (hloop.append ((lays_restore name (depth + 1)).append (lays_nil (depth + 1)))))
  -- nothing stands before the brace of the block
  have hnothing : Closed [] := closed_flat rfl
  exact (hnothing.opening rfl depth).block hblock

/-- The line of a condition: the first one opens a block, and the others close one before. -/
theorem lays_condition {condition : Code} (h : Closed condition.print) (depth : Nat)
    (first : Bool) :
    Lays (if first then depth else depth + 1)
      [⟨depth, (if first then "if " else "\x7d else if ").toList ++ condition.print ++
        " \x7b".toList⟩] (depth + 1) := by
  cases first with
  | true =>
    have hcondition := h.between "if ".toList [' '] rfl rfl (by decide)
    have hline := hcondition.opening rfl depth
    rw [List.append_assoc] at hline
    exact hline
  | false =>
    have hcondition := h.between " else if ".toList [' '] rfl rfl (by decide)
    have hline := hcondition.reopening depth
    rw [← List.cons_append, ← List.cons_append, List.append_assoc] at hline
    exact hline

end

/-! ## 6. Templates -/

-- The induction is over nodes, lists of nodes and arms at once, as in the compiler.  All arms but
-- the first one start inside of the block that they close.
mutual

theorem lays_node (scope : Scope) (depth : Nat) (n : Node) (ss : List Stmt)
    (h : compileNode scope n = .ok ss) (hn : n.WellFormed) :
    Lays depth (stmtsLines depth ss) depth := by
  cases n with
  | text value =>
    rw [compileNode] at h
    cases h
    split
    · exact lays_nil depth
    · exact (lays_pushText depth value).statement
  | output expr =>
    obtain ⟨code, hcode, rfl⟩ := eq_pushValue_of_compileNode h
    have hvalue := (composes_closed scope).convert (l := []) (closed_snippet hcode)
    exact (lays_pushValue hvalue depth).statement
  | assign name value =>
    obtain ⟨code, hcode, rfl⟩ := eq_insert_of_compileNode h
    have hvalue := (composes_closed scope).convert (l := []) (closed_snippet hcode)
    have hline := lays_insertion name hvalue depth
    exact Lays.statement (s := .insert name (.convert code)) hline
  | choice arms =>
    obtain ⟨compiled, harms, rfl⟩ := eq_choose_of_compileNode h
    have hall := lays_arms scope depth true arms compiled harms hn.2 fun _ => hn.1
    exact Lays.statement (s := .choose compiled) hall
  | loop name items body =>
    obtain ⟨code, inner, hcode, hinner, rfl⟩ := eq_loopBlock_of_compileNode h
    have hbody := lays_nodes (scope.inLoop name) (depth + 2) body inner hinner hn.2.2
    have hitems := (composes_closed scope).convert (l := []) (closed_snippet hcode)
    exact (Lays.loopBlock hn.1 hitems hbody).statement
  | template children => cases h

theorem lays_nodes (scope : Scope) (depth : Nat) (ns : List Node) (ss : List Stmt)
    (h : compileNodes scope ns = .ok ss) (hns : NodesWellFormed ns) :
    Lays depth (stmtsLines depth ss) depth := by
  cases ns with
  | nil =>
    cases h
    exact lays_nil depth
  | cons n rest =>
    obtain ⟨first, more, hfirst, hmore, rfl⟩ := eq_append_of_compileNodes h
    rw [stmtsLines_append]
    exact (lays_node scope depth n first hfirst hns.1).append
      (lays_nodes scope depth rest more hmore hns.2)

theorem lays_arms (scope : Scope) (depth : Nat) (first : Bool) (arms : Arms)
    (compiled : StmtArms) (h : compileArms scope arms = .ok compiled)
    (harms : ArmsWellFormed arms) (hfirst : first = true → arms.hasArm = true) :
    Lays (if first then depth else depth + 1) (armsLines depth first compiled) depth := by
  cases arms with
  | stop =>
    cases first with
    | true => exact absurd (hfirst rfl) (by decide)
    | false =>
      cases h
      exact lays_closing depth
  | otherwise body =>
    cases first with
    | true => exact absurd (hfirst rfl) Bool.false_ne_true
    | false =>
      obtain ⟨inner, hinner, rfl⟩ := eq_otherwise_of_compileArms h
      have hbody := lays_nodes scope (depth + 1) body inner hinner harms
      have helse : Closed " else ".toList := closed_flat rfl
      exact (helse.reopening depth).block hbody
  | arm condition body rest =>
    obtain ⟨code, inner, more, hcode, hinner, hmore, rfl⟩ := eq_arm_of_compileArms h
    have htruth := (composes_closed scope).truthOf (l := []) (closed_snippet hcode)
    have hcondition := lays_condition htruth depth first
    have hbody := lays_nodes scope (depth + 1) body inner hinner harms.2.1
    have hrest := lays_arms scope depth false rest more hmore harms.2.2 (by simp)
    exact hcondition.append (hbody.append hrest)

end

/-! ## 7. Files -/

/-- Whether a line is plain code that stands where `n` braces are open and leaves `m` open. -/
def Line.takes (n m : Nat) (l : Line) : Bool :=
  l.text.all isPlainChar && nest (braces n) l.text == some (braces m) &&
    (l.text.isEmpty ||
      (l.depth == n - (if l.text.head? = some '}' then 1 else 0) && l.text.head? != some ' '))

theorem rowFits_of_takes {n m : Nat} {l : Line} (h : l.takes n m = true) : RowFits n l m := by
  simp only [Line.takes, Bool.and_eq_true, beq_iff_eq, Bool.or_eq_true, List.isEmpty_iff,
    bne_iff_ne] at h
  obtain ⟨⟨hplain, hnest⟩, hdepth⟩ := h
  refine (skeletal_plain hplain).rowFits hnest fun hne => ?_
  rcases hdepth with hempty | hdepth
  · exact absurd hempty hne
  · exact hdepth

/-- The number of braces that are open after a line of plain code that stands where `n` are. -/
def Line.after? (n : Nat) (l : Line) : Option Nat :=
  match nest (braces n) l.text with
  | some awaited => if l.takes n awaited.length then some awaited.length else none
  | none => none

/-- Lines of plain code can be checked one after another. -/
theorem nested_of_after? {n m : Nat} {rows : List Line} (h : rows.foldlM Line.after? n = some m) :
    Nested n rows m := by
  induction rows generalizing n with
  | nil =>
    cases h
    exact .nil _
  | cons l rows ih =>
    rw [List.foldlM_cons] at h
    obtain ⟨k, hk, hrest⟩ := Option.bind_eq_some_iff.1 h
    refine .cons (m := k) ?_ (ih hrest)
    unfold Line.after? at hk
    split at hk
    · split at hk
      · rename_i htakes
        cases hk
        exact rowFits_of_takes htakes
      · cases hk
    · cases hk

/-- Names in a line do not matter for what the line opens and closes. -/
theorem rowFits_around {cs : List Char} (h : cs.all isFlat = true) (n depth m : Nat)
    (front after : List Char) (hne : front ≠ [])
    (htakes : (Line.mk depth (front ++ after)).takes n m = true) :
    RowFits n ⟨depth, front ++ cs ++ after⟩ m := by
  have hnest : nest (braces n) (front ++ cs ++ after) = nest (braces n) (front ++ after) := by
    rw [nest_append, nest_append, nest_append]
    cases hfront : nest (braces n) front with
    | none => rfl
    | some mid => rw [Option.bind_some, (neutral_of_flat h).balanced.nest_eq mid]
  have hplain := all_isPlainChar_of_flat h
  refine rowFits_of_takes ?_
  cases front with
  | nil => exact absurd rfl hne
  | cons c front =>
    unfold Line.takes at htakes ⊢
    simp only [List.all_append, hplain, Bool.and_true, hnest] at htakes ⊢
    exact htakes

theorem nested_contextLines {fields : List (List Char)}
    (h : ∀ f ∈ fields, isIdentifier f = true) : Nested 0 (contextLines fields) 0 := by
  have hnames : ∀ n ∈ fields.map bindingName, n.all isFlat = true := by
    intro n hn
    obtain ⟨f, hf, rfl⟩ := List.mem_map.1 hn
    exact all_bindingName (fun _ => isFlat_of_isIdentChar) rfl (h f hf)
  have hparameters : ∀ t ∈ (fields.map bindingName).map (· ++ ": Value".toList),
      t.all isFlat = true := by
    intro t ht
    obtain ⟨n, hn, rfl⟩ := List.mem_map.1 ht
    rw [List.all_append, hnames n hn]
    rfl
  have hfields : Nested 1 ((fields.map bindingName).map
      fun n => ⟨1, "pub ".toList ++ n ++ ": Value,".toList⟩) 1 := by
    generalize fields.map bindingName = names at hnames
    induction names with
    | nil => exact .nil 1
    | cons n names ih =>
      have hn := hnames n (List.mem_cons_self ..)
      exact .cons (rowFits_around hn 1 1 1 "pub ".toList ": Value,".toList (by simp) rfl)
        (ih fun n' hn' => hnames n' (List.mem_cons_of_mem _ hn'))
  have hcomment : ∀ c ∈ "/ Inputs available to the template.".toList, isPrintable c = true :=
    forall_mem_of_all (by decide)
  have hstruct : Nested 0 [fixed 0 "/// Inputs available to the template.",
      fixed 0 "#[derive(Debug, Clone, Default)]", fixed 0 "pub struct TemplateContext \x7b"] 1 :=
    .cons (rowFits_comment hcomment 0) (nested_of_after? (by decide +kernel))
  have himpl : Nested 1 [fixed 0 "\x7d", fixed 0 "", fixed 0 "impl TemplateContext \x7b",
      fixed 1 "#[allow(clippy::too_many_arguments)]"] 1 := nested_of_after? (by decide +kernel)
  have hnew := rowFits_around (all_commaSeparated rfl hparameters) 1 1 2
    "pub fn new(".toList ") -> Self \x7b".toList (by simp) rfl
  have hself := rowFits_around (all_commaSeparated rfl hnames) 2 2 2
    "Self \x7b ".toList " \x7d".toList (by simp) rfl
  have hend : Nested 2 [fixed 1 "\x7d", fixed 0 "\x7d", fixed 0 ""] 0 :=
    nested_of_after? (by decide +kernel)
  exact (hstruct.append hfields).append (himpl.append (.cons hnew (.cons hself hend)))

/-- The lines of the statements of a renderer. -/
def statementLines (body : List Stmt) : List Line :=
  [fixed 2 "let mut __out = String::new();",
   fixed 2 "let mut __locals: HashMap<String, Value> = HashMap::new();"] ++ stmtsLines 2 body

/-- The lines of a renderer up to its statements. -/
def rendererHead (name : List Char) : List Line :=
  [⟨0, "/// Renderer for the `".toList ++ sanitize name ++ "` chat template.".toList⟩,
   fixed 0 "#[allow(non_camel_case_types)]",
   ⟨0, "pub struct ".toList ++ typeName name ++ ";".toList⟩,
   fixed 0 "",
   ⟨0, "impl ".toList ++ typeName name ++ " \x7b".toList⟩,
   fixed 1 "#[allow(unused_mut, unused_variables, clippy::all)]",
   fixed 1 "pub fn render(context: &TemplateContext) -> String \x7b"]

/-- The lines of a renderer after its statements. -/
def rendererEnd : List Line := [fixed 2 "__out", fixed 1 "\x7d", fixed 0 "\x7d"]

theorem rendererLines_eq (name : List Char) (body : List Stmt) :
    rendererLines name body = rendererHead name ++ (statementLines body ++ rendererEnd) := by
  simp [rendererLines, rendererHead, statementLines, rendererEnd]

theorem nested_rendererHead (name : List Char) : Nested 0 (rendererHead name) 2 := by
  have htype := all_typeName (fun _ => isFlat_of_isIdentChar) name
  have htitle := rowFits_comment (isPrintable_of_mem_title name) 0
  have hstruct := rowFits_around htype 0 0 0 "pub struct ".toList ";".toList (by simp) rfl
  have himpl := rowFits_around htype 0 0 1 "impl ".toList " \x7b".toList (by simp) rfl
  have hfunction : Nested 1 [fixed 1 "#[allow(unused_mut, unused_variables, clippy::all)]",
      fixed 1 "pub fn render(context: &TemplateContext) -> String \x7b"] 2 :=
    nested_of_after? (by decide +kernel)
  have hempty : RowFits 0 (fixed 0 "") 0 := rowFits_empty 0 0
  have hallow : RowFits 0 (fixed 0 "#[allow(non_camel_case_types)]") 0 :=
    rowFits_of_takes (by decide +kernel)
  exact .cons htitle (.cons hallow (.cons hstruct (.cons hempty (.cons himpl hfunction))))

theorem nested_rendererEnd : Nested 2 rendererEnd 0 := nested_of_after? (by decide +kernel)

theorem lays_statementLines {body : List Stmt} (h : Lays 2 (stmtsLines 2 body) 2) :
    Lays 2 (statementLines body) 2 := by
  have hout : Lays 2 [fixed 2 "let mut __out = String::new();"] 2 :=
    lays_fixed "let mut __out = String::new()".toList (by decide +kernel) (by decide +kernel)
      (by decide +kernel) rfl 2
  have hlocals : Lays 2 [fixed 2 "let mut __locals: HashMap<String, Value> = HashMap::new();"] 2 :=
    lays_fixed "let mut __locals: HashMap<String, Value> = HashMap::new()".toList
      (by decide +kernel) (by decide +kernel) (by decide +kernel) rfl 2
  exact (hout.append hlocals).append h

/-- **The indentation of a generated file shows its blocks.**  In the code after the prelude, all
brackets outside of literals and comments are closed in order.  The statements of the renderer
follow one another, and each line of them holds one statement, or the head or the end of one.
Wherever a line starts, only braces are open, and unless it is empty it is indented by four blanks
for each of them, but not for one that it closes first. -/
theorem compile_indented (fields : List (List Char)) (name template text : List Char)
    (h : compile fields name template = .ok text) :
    ∃ nodes body rest fs above below, parse template = .ok nodes ∧
      compileNodes ⟨fields, []⟩ nodes = .ok body ∧
      text = printLines headerLines ++ preludeText ++ rest ∧
      fragments none rest = some fs ∧ nest [] (skeleton fs) = some [] ∧
      linesOf rest = above ++ (statementLines body).map Line.written ++ below ∧
      (∀ l ∈ statementLines body, OneStatement l.text) ∧
      ∀ before line after, linesOf rest = before ++ line :: after →
        ∃ gs depth, fragments none (joinLines before) = some gs ∧
          nest [] (skeleton gs) = some (braces depth) ∧
          (line ≠ [] → indentation line = 4 * (depth - if closesFirst line then 1 else 0)) := by
  unfold compile at h
  split at h
  · cases h
  · rename_i hfields
    obtain ⟨nodes, hparse, h⟩ := eq_ok_of_bind h
    obtain ⟨body, hbody, h⟩ := eq_ok_of_bind h
    cases h
    have hidentifiers : ∀ f ∈ fields, isIdentifier f = true := by
      intro f hf
      simpa using List.find?_eq_none.1 hfields f hf
    have hlays := lays_statementLines
      (lays_nodes ⟨fields, []⟩ 2 nodes body hbody (wellFormed_of_parse hparse))
    have hempty : Nested 0 [fixed 0 ""] 0 := (rowFits_empty 0 0).nested
    have habove := (hempty.append (nested_contextLines hidentifiers)).append
      (nested_rendererHead name)
    have hall := habove.append (hlays.nested.append nested_rendererEnd)
    obtain ⟨fs, hreads, hnest⟩ := hall.reads
    have hlines := hall.linesOf_eq []
    rw [List.append_nil] at hlines
    refine ⟨nodes, body, _, fs, ([fixed 0 ""] ++ contextLines fields ++ rendererHead name).map
      Line.written, rendererEnd.map Line.written ++ [[]], hparse, hbody, ?_, hreads.fragments_eq,
      hnest, ?_, hlays.single, ?_⟩
    · simp only [fileText, rendererLines_eq, printLines_append, List.append_assoc]
    · rw [hlines]
      simp only [List.map_append, List.append_assoc]
      rfl
    · intro before line after hsplit
      rw [hlines] at hsplit
      obtain ⟨front, depth, rfl, hfront, hline⟩ := hall.indented hsplit
      obtain ⟨gs, hfrontReads, hfrontNest⟩ := hfront.reads
      rw [joinLines_written]
      exact ⟨gs, depth, hfrontReads.fragments_eq, hfrontNest, hline⟩

/-- A template with brackets of all kinds in its texts and constants, and a chain of conditions in a
loop. -/
def chainedTemplate : List Char :=
  ("\x7b% for m in rows %\x7d\x7b% if m['('] %\x7d\x7d (\x7b% elif x %\x7d[\n" ++
    "\x7b% else %\x7d\x7b\x7b '\x7b' | shout('[') \x7d\x7d" ++
    "\x7b% endif %\x7d\x7b% endfor %\x7d").toList

/-- The line of its code that writes the text of the second condition. -/
def chainedLine : List Char := "                    __out.push_str(\"[\\n\");".toList

/-- The theorem at such a template: five braces are open before that line. -/
theorem compile_indented_chain :
    ∃ text, compile ["rows".toList] ['t'] chainedTemplate = .ok text ∧
      ∃ rest fs before after gs, text = printLines headerLines ++ preludeText ++ rest ∧
        fragments none rest = some fs ∧ nest [] (skeleton fs) = some [] ∧
        linesOf rest = before ++ chainedLine :: after ∧
        fragments none (joinLines before) = some gs ∧
        nest [] (skeleton gs) = some (braces 5) := by
  have hsome : (compile ["rows".toList] ['t'] chainedTemplate).toOption.isSome = true := by
    decide +kernel
  cases h : compile ["rows".toList] ['t'] chainedTemplate with
  | error e =>
    rw [h] at hsome
    cases hsome
  | ok text =>
    obtain ⟨nodes, body, rest, fs, above, below, hparse, hbody, htext, hfragments, hnest, hlines, -,
      hindented⟩ := compile_indented _ _ _ text h
    have hmem : ((parse chainedTemplate).toOption.bind fun ns =>
        (compileNodes ⟨["rows".toList], []⟩ ns).toOption).map (fun ss =>
          ((statementLines ss).map Line.written).contains chainedLine) = some true := by
      decide +kernel
    rw [hparse] at hmem
    simp only [Except.toOption, Option.bind_some, hbody, Option.map_some, Option.some.injEq,
      List.contains_iff_mem] at hmem
    obtain ⟨front, behind, hstatements⟩ := List.append_of_mem hmem
    have hsplit : linesOf rest = (above ++ front) ++ chainedLine :: (behind ++ below) := by
      rw [hlines, hstatements]
      simp
    obtain ⟨gs, depth, hbefore, hopen, hline⟩ := hindented _ _ _ hsplit
    have hdepth : 4 * 5 = 4 * (depth - 0) := hline (by decide)
    obtain rfl : depth = 5 := by omega
    exact ⟨text, rfl, rest, fs, _, _, gs, htext, hfragments, hnest, hsplit, hbefore, hopen⟩

end TemplateCompiler.Target
