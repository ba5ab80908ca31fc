import TemplateCompiler.Proofs.Template.Printing
import TemplateCompiler.Proofs.Text.Balanced

/-! # Writing a template and reading it back

Every well-formed tree is the reading of some text: the one that `print` writes.  Reading it gives
the tree again, with other positions (`parse_print`).

The proof follows the automaton.  Over the tokens of what was written, a node adds itself to the
nodes before it (`run_node`, one case a constructor), whatever blocks are open around it.
-/

namespace TemplateCompiler.Template

open Text

/-! ## 1. Trees without positions -/

/-- Forgets where an expression stands. -/
def Snippet.unplaced (s : Snippet) : Snippet := { s with position := default }

mutual

/-- Forgets all positions of a node. -/
def Node.unplaced : Node → Node
  | .text value => .text value
  | .output expr => .output expr.unplaced
  | .assign name value => .assign name value.unplaced
  | .choice arms => .choice (armsUnplaced arms)
  | .loop name items body => .loop name items.unplaced (nodesUnplaced body)
  | .template children => .template (nodesUnplaced children)

/-- Forgets all positions of nodes. -/
def nodesUnplaced : List Node → List Node
  | [] => []
  | n :: rest => n.unplaced :: nodesUnplaced rest

/-- Forgets all positions of arms. -/
def armsUnplaced : Arms → Arms
  | .stop => .stop
  | .otherwise body => .otherwise (nodesUnplaced body)
  | .arm condition body rest =>
    .arm condition.unplaced (nodesUnplaced body) (armsUnplaced rest)

end

/-! ## 2. What is written for a well-formed tree -/

/-- Before a text, what has no first character of the closing delimiter adds none of these. -/
theorem not_closing_append {d : Delimiter} {pre cs : List Char} (hpre : d.closeMark ∉ pre)
    (h : ¬d.closing <:+: cs) : ¬d.closing <:+: pre ++ cs := by
  intro hin
  rw [Delimiter.closing] at hin h
  rcases pair_infix_append hin with hleft | hright | ⟨hlast, -⟩
  · exact hpre (hleft.subset (by simp))
  · exact h hright
  · exact hpre (List.mem_of_getLast? hlast)

theorem fits_tagItem (k : Keyword) {pre cs : List Char} (hpre : '%' ∉ pre)
    (h : ¬Delimiter.tag.closing <:+: cs) : (tagItem k (pre ++ cs)).Fits := by
  refine ⟨nofun, ?_⟩
  have hword : Delimiter.tag.closeMark ∉ k.word ++ ' ' :: pre := by
    have hk : '%' ∉ k.word := by cases k <;> decide
    simpa [Delimiter.closeMark] using ⟨hk, hpre⟩
  have hnot := not_closing_append hword h
  simpa using hnot

theorem fits_bareTag (k : Keyword) : (bareTag k).Fits := by
  refine ⟨nofun, fun hin => ?_⟩
  have hmem : '%' ∈ k.word := hin.subset (by simp [Delimiter.closing, Delimiter.closeMark])
  revert hmem
  cases k <;> decide

/-- No name has a percent sign in it. -/
theorem not_mem_name {name : List Char} (h : isIdentifier name = true) : '%' ∉ name := by
  intro hmem
  exact absurd (isIdentChar_of_mem h hmem) (by decide)

mutual

/-- **The items of a well-formed node can be written.** -/
theorem fits_of_mem_items (n : Node) (h : n.WellFormed) : ∀ i ∈ n.items, i.Fits := by
  cases n with
  | text value =>
    intro i hi
    obtain rfl : i = .text value := by simpa [Node.items] using hi
    exact h
  | output expr =>
    intro i hi
    obtain rfl : i = .block .output expr.source := by simpa [Node.items] using hi
    exact ⟨nofun, h.closing⟩
  | assign name value =>
    intro i hi
    obtain rfl := List.mem_singleton.1 hi
    exact fits_tagItem _ (by simpa using not_mem_name h.1) h.2.closing
  | choice arms => exact fits_of_mem_armsItems _ arms h.2
  | loop name items body =>
    obtain ⟨hname, hitems, hbody⟩ := h
    have hmore := fits_of_mem_nodesItems body hbody
    intro i hi
    simp only [Node.items, List.mem_cons, List.mem_append, List.not_mem_nil, or_false] at hi
    rcases hi with rfl | hi | rfl
    · exact fits_tagItem _ (by simpa using not_mem_name hname) hitems.closing
    · exact hmore i hi
    · exact fits_bareTag _
  | template children => exact absurd h id

theorem fits_of_mem_nodesItems (ns : List Node) (h : NodesWellFormed ns) :
    ∀ i ∈ nodesItems ns, i.Fits := by
  cases ns with
  | nil => simp [nodesItems]
  | cons n rest =>
    intro i hi
    rw [nodesItems, List.mem_append] at hi
    rcases hi with hi | hi
    · exact fits_of_mem_items n h.1 i hi
    · exact fits_of_mem_nodesItems rest h.2 i hi

theorem fits_of_mem_armsItems (k : Keyword) (arms : Arms) (h : ArmsWellFormed arms) :
    ∀ i ∈ armsItems k arms, i.Fits := by
  cases arms with
  | stop =>
    intro i hi
    obtain rfl := List.mem_singleton.1 hi
    exact fits_bareTag _
  | otherwise body =>
    have hmore := fits_of_mem_nodesItems body h
    intro i hi
    simp only [armsItems, List.mem_cons, List.mem_append, List.not_mem_nil, or_false] at hi
    rcases hi with rfl | hi | rfl
    · exact fits_bareTag _
    · exact hmore i hi
    · exact fits_bareTag _
  | arm condition body rest =>
    obtain ⟨hcond, hbody, hrest⟩ := h
    have hmore := fits_of_mem_nodesItems body hbody
    have hlast := fits_of_mem_armsItems .elifWord rest hrest
    intro i hi
    simp only [armsItems, List.mem_cons, List.mem_append] at hi
    rcases hi with rfl | hi | hi
    · exact fits_tagItem k (List.not_mem_nil (a := '%')) hcond.closing
    · exact hmore i hi
    · exact hlast i hi

end

/-! ## 3. Reading what was written -/

/-- A tag with a keyword and an argument is taken apart again. -/
theorem tagItem_parts {t : Token} {k : Keyword} {argument : List Char} (h : Tight argument)
    (ht : t.bare = (tagItem k argument).bare) :
    t.kind = .tag ∧ keyword? t.value = some k ∧ afterFirstWord t.value = argument := by
  obtain ⟨hkind, hvalue⟩ := Prod.mk.inj ht
  have hword : Tight k.word :=
    tight_of_isIdentChar (by cases k <;> decide) (forall_mem_of_all (by cases k <;> decide))
  have htag : stripped t.value = k.word ++ ' ' :: argument := by
    have htight : Tight (k.word ++ ' ' :: argument) := hword.append [' '] h
    rw [hvalue]
    exact htight.trim isBlank_of_mem_space isBlank_of_mem_space
  -- the keyword ends at the blank behind it
  obtain ⟨hfirst, hrest⟩ :
      ((k.word ++ ' ' :: argument).takeWhile fun c => !isBlank c) = k.word ∧
        ((k.word ++ ' ' :: argument).dropWhile fun c => !isBlank c) = ' ' :: argument :=
    takeWhile_append_of_head (forall_mem_of_all (by cases k <;> decide))
      (by simp [show isBlank ' ' = true by decide])
  refine ⟨hkind, ?_, ?_⟩
  · have hhead : firstWord t.value = k.word := by rw [firstWord, htag, hfirst]
    rw [← ofWord?_headWord, headWord_eq, hhead, Keyword.ofWord?_word]
  · rw [afterFirstWord, htag, hrest]
    exact h.trim_blank_cons

theorem bareTag_parts {t : Token} {k : Keyword} (ht : t.bare = (bareTag k).bare) :
    t.kind = .tag ∧ keyword? t.value = some k := by
  obtain ⟨hkind, hvalue⟩ := Prod.mk.inj ht
  refine ⟨hkind, ?_⟩
  rw [hvalue]
  cases k <;> decide

theorem tight_of_isIdentifier {name : List Char} (h : isIdentifier name = true) : Tight name :=
  tight_of_isIdentChar (ne_nil_of_isIdentifier h) fun _ hc => isIdentChar_of_mem h hc

/-- **The head of a loop is taken apart at its first `in`**, even if the variable has this name: a
word at the very start has no blank before it. -/
theorem loopForm_eq {name items : List Char} (hname : isIdentifier name = true)
    (hitems : Tight items) : loopForm (name ++ " in ".toList ++ items) = .ok (name, items) := by
  have hin : IsWord "in".toList := by decide
  have hchunk : Balanced (fun c => isBlank c = false) name :=
    Balanced.of_plain fun c hc =>
      ⟨isPlain_of_isIdentChar (isIdentChar_of_mem hname hc),
        isBlank_of_isIdentChar (isIdentChar_of_mem hname hc)⟩
  have hcut : cutWord "in".toList (name ++ " in ".toList ++ items) =
      some (name ++ [' '], ' ' :: items) := by
    have hword := Scan.cutWord_blank_word hin (b := ' ') (c := ' ') (by decide) (by decide) false
      items
    rw [List.append_assoc]
    calc (Scan.within 0).cutWord "in".toList false (name ++ ' ' :: ("in".toList ++ ' ' :: items))
        = prepend name (some ([' '], ' ' :: items)) := by rw [hchunk.cutWord_chunk hin, hword]
      _ = some (name ++ [' '], ' ' :: items) := rfl
  have hbefore := (tight_of_isIdentifier hname).trim_concat_blank
  have hafter := hitems.trim_blank_cons
  rw [← loopHead_eq_loopForm, loopHead, hcut]
  simp [hbefore, hafter, hname, hitems.ne_nil]

/-- A character that no name has is found behind a name. -/
theorem cutChar_name {name : List Char} (hname : ∀ c ∈ name, isIdentChar c = true) {target : Char}
    (ht : isIdentChar target = false) (rest : List Char) :
    (Scan.within 0).cutChar target (name ++ rest) =
      prepend name ((Scan.within 0).cutChar target rest) := by
  induction name with
  | nil => simp
  | cons c name ih =>
    have hc := hname c (by simp)
    have hne : (c == target) = false := by
      rw [beq_eq_false_iff_ne]
      rintro rfl
      simp [hc] at ht
    rw [List.cons_append, Scan.cutChar_cons, hne,
      Scan.next_within_of_isPlain (isPlain_of_isIdentChar hc), ih fun d hd => hname d (by simp [hd])]
    simp

/-- **An assignment is taken apart at its first equals sign.** -/
theorem assignmentForm_eq {name value : List Char} (hname : isIdentifier name = true)
    (hvalue : Tight value) :
    assignmentForm (name ++ " = ".toList ++ value) = .ok (name, value) := by
  have hcut : cutChar '=' (name ++ " = ".toList ++ value) = some (name ++ [' '], ' ' :: value) := by
    have hsign : (Scan.within 0).cutChar '=' (' ' :: '=' :: ' ' :: value) =
        some ([' '], ' ' :: value) := rfl
    rw [List.append_assoc]
    calc (Scan.within 0).cutChar '=' (name ++ ' ' :: '=' :: ' ' :: value)
        = prepend name (some ([' '], ' ' :: value)) := by
          rw [cutChar_name (fun _ hc => isIdentChar_of_mem hname hc) (by decide), hsign]
      _ = some (name ++ [' '], ' ' :: value) := rfl
  have hbefore := (tight_of_isIdentifier hname).trim_concat_blank
  have hafter := hvalue.trim_blank_cons
  rw [← assignment_eq_assignmentForm, assignment, hcut]
  simp [hbefore, hafter, hname, hvalue.ne_nil]

namespace Context

variable (ctx : Context)

theorem run_cons (s : AutomatonState) (t : Token) (ts : List Token) :
    ctx.run s (t :: ts) = ctx.step s t >>= fun s => ctx.run s ts := by
  rw [run, List.foldlM_cons]
  rfl

theorem run_append (s : AutomatonState) (ts us : List Token) :
    ctx.run s (ts ++ us) = ctx.run s ts >>= fun s => ctx.run s us := by
  rw [run, List.foldlM_append]
  rfl

/-- A tag with a keyword is stepped over by its keyword. -/
theorem step_of_word {t : Token} {k : Keyword} (hkind : t.kind = .tag)
    (hword : keyword? t.value = some k) (s : AutomatonState) :
    ctx.step s t = ctx.stepTag s t k := by
  rw [step, hkind, hword]

theorem conditionIn_eq {t : Token} {cond : Snippet} (h : cond.FitsIn .tag)
    (hrest : afterFirstWord t.value = cond.source) :
    ctx.conditionIn t = .ok (ctx.placed t cond.source) := by
  rw [conditionIn, hrest, conditionForm, if_neg h.tight.ne_nil]
  rfl

@[simp] theorem unplaced_placed (t : Token) (s : Snippet) :
    (ctx.placed t s.source).unplaced = s.unplaced := rfl

theorem step_text {t : Token} {value : List Char} (ht : t.bare = (Item.text value).bare)
    (s : AutomatonState) : ctx.step s t = .ok (s.add (.text value)) := by
  obtain ⟨hkind, hvalue⟩ := Prod.mk.inj ht
  rw [step, hkind, hvalue]

theorem step_output {t : Token} {expr : Snippet} (h : expr.FitsIn .output)
    (ht : t.bare = (Item.block .output expr.source).bare) (s : AutomatonState) :
    ctx.step s t = .ok (s.add (.output (ctx.placed t expr.source))) := by
  obtain ⟨hkind, hvalue⟩ := Prod.mk.inj ht
  have hstripped : stripped t.value = expr.source := by
    rw [hvalue]
    exact h.tight.trim isBlank_of_mem_space isBlank_of_mem_space
  rw [step, hkind, hstripped]
  exact if_neg h.tight.ne_nil

theorem step_assign {t : Token} {name : List Char} {value : Snippet}
    (hname : isIdentifier name = true) (hvalue : value.FitsIn .tag)
    (ht : t.bare = (tagItem .setWord (name ++ " = ".toList ++ value.source)).bare)
    (s : AutomatonState) :
    ctx.step s t = .ok (s.add (.assign name (ctx.placed t value.source))) := by
  have htight : Tight (name ++ " = ".toList ++ value.source) := by
    rw [List.append_assoc]
    exact (tight_of_isIdentifier hname).append _ hvalue.tight
  obtain ⟨hkind, hword, hrest⟩ := tagItem_parts htight ht
  rw [ctx.step_of_word hkind hword, stepTag, assignmentIn, hrest,
    assignmentForm_eq hname hvalue.tight]
  rfl

theorem step_loop {t : Token} {name : List Char} {items : Snippet}
    (hname : isIdentifier name = true) (hitems : items.FitsIn .tag)
    (ht : t.bare = (tagItem .forWord (name ++ " in ".toList ++ items.source)).bare)
    (s : AutomatonState) :
    ctx.step s t =
      .ok { nodes := [], stack := .loop s.nodes name (ctx.placed t items.source) :: s.stack } := by
  have htight : Tight (name ++ " in ".toList ++ items.source) := by
    rw [List.append_assoc]
    exact (tight_of_isIdentifier hname).append _ hitems.tight
  obtain ⟨hkind, hword, hrest⟩ := tagItem_parts htight ht
  rw [ctx.step_of_word hkind hword, stepTag, loopIn, hrest, loopForm_eq hname hitems.tight]
  rfl

/-- An `if` or `elif` tag, by what its condition is used for. -/
theorem conditionIn_tagItem {t : Token} {k : Keyword} {cond : Snippet} (h : cond.FitsIn .tag)
    (ht : t.bare = (tagItem k cond.source).bare) :
    (∀ s, ctx.step s t = ctx.stepTag s t k) ∧
      ctx.conditionIn t = .ok (ctx.placed t cond.source) := by
  obtain ⟨hkind, hword, hrest⟩ := tagItem_parts h.tight ht
  exact ⟨ctx.step_of_word hkind hword, ctx.conditionIn_eq h hrest⟩

theorem step_bareTag {t : Token} {k : Keyword} (ht : t.bare = (bareTag k).bare)
    (s : AutomatonState) : ctx.step s t = ctx.stepTag s t k := by
  obtain ⟨hkind, hword⟩ := bareTag_parts ht
  exact ctx.step_of_word hkind hword s

end Context

mutual

/-- **A node adds itself to the nodes before it**, over the tokens of its items. -/
theorem run_node (ctx : Context) (n : Node) (h : n.WellFormed) (s : AutomatonState)
    (ts : List Token) (hts : ts.map Token.bare = n.items.map Item.bare) :
    ∃ m, m.unplaced = n.unplaced ∧ ctx.run s ts = .ok (s.add m) := by
  cases n with
  | text value =>
    obtain ⟨t, rfl, ht⟩ := List.map_eq_singleton_iff.1 hts
    exact ⟨.text value, rfl, by rw [ctx.run_cons, ctx.step_text ht]; rfl⟩
  | output expr =>
    obtain ⟨t, rfl, ht⟩ := List.map_eq_singleton_iff.1 hts
    exact ⟨.output (ctx.placed t expr.source), rfl,
      by rw [ctx.run_cons, ctx.step_output h ht]; rfl⟩
  | assign name value =>
    obtain ⟨t, rfl, ht⟩ := List.map_eq_singleton_iff.1 hts
    exact ⟨.assign name (ctx.placed t value.source), rfl,
      by rw [ctx.run_cons, ctx.step_assign h.1 h.2 ht]; rfl⟩
  | choice arms =>
    obtain ⟨hhas, harms⟩ := h
    cases arms with
    | stop => cases hhas
    | otherwise body => cases hhas
    | arm cond body rest =>
      obtain ⟨hcond, hbody, hrest⟩ := harms
      simp only [Node.items, armsItems, List.map_cons, List.map_append] at hts
      obtain ⟨t, ts, rfl, ht, hts⟩ := List.map_eq_cons_iff.1 hts
      obtain ⟨ts, us, rfl, htokens, hus⟩ := List.map_eq_append_iff.1 hts
      obtain ⟨hstep, hread⟩ := ctx.conditionIn_tagItem hcond ht
      obtain ⟨ms, hms, hrun⟩ := run_nodes ctx body hbody
        { nodes := [], stack := .arm s.nodes [] (ctx.placed t cond.source) :: s.stack } ts htokens
      obtain ⟨more, hmore, hend⟩ := run_arms ctx rest hrest s.nodes []
        (ctx.placed t cond.source) ms s.stack us hus
      refine ⟨.choice (.arm (ctx.placed t cond.source) ms more), ?_, ?_⟩
      · simp [Node.unplaced, armsUnplaced, hms, hmore]
      · rw [ctx.run_cons, hstep, Context.stepTag, hread]
        change ctx.run _ (ts ++ us) = _
        rw [ctx.run_append, hrun]
        exact hend
  | loop name items body =>
    obtain ⟨hname, hitems, hbody⟩ := h
    simp only [Node.items, List.map_cons, List.map_append] at hts
    obtain ⟨t, ts, rfl, ht, hts⟩ := List.map_eq_cons_iff.1 hts
    obtain ⟨ts, us, rfl, htokens, hus⟩ := List.map_eq_append_iff.1 hts
    obtain ⟨u, rfl, hu⟩ := List.map_eq_singleton_iff.1 hus
    obtain ⟨ms, hms, hrun⟩ := run_nodes ctx body hbody
      { nodes := [], stack := .loop s.nodes name (ctx.placed t items.source) :: s.stack } ts htokens
    refine ⟨.loop name (ctx.placed t items.source) ms, ?_, ?_⟩
    · simp [Node.unplaced, hms]
    · rw [ctx.run_cons, ctx.step_loop hname hitems ht]
      change ctx.run _ (ts ++ [u]) = _
      rw [ctx.run_append, hrun]
      change ctx.run _ [u] = _
      rw [ctx.run_cons, ctx.step_bareTag hu]
      rfl
  | template children => exact absurd h id

/-- The nodes of a body, one after another. -/
theorem run_nodes (ctx : Context) (ns : List Node) (h : NodesWellFormed ns) (s : AutomatonState)
    (ts : List Token) (hts : ts.map Token.bare = (nodesItems ns).map Item.bare) :
    ∃ ms, nodesUnplaced ms = nodesUnplaced ns ∧
      ctx.run s ts = .ok { s with nodes := s.nodes ++ ms } := by
  cases ns with
  | nil =>
    obtain rfl := List.map_eq_nil_iff.1 hts
    exact ⟨[], rfl, by simp [Context.run, pure, Except.pure]⟩
  | cons n rest =>
    rw [nodesItems, List.map_append] at hts
    obtain ⟨ts, us, rfl, htokens, hus⟩ := List.map_eq_append_iff.1 hts
    obtain ⟨m, hm, hrun⟩ := run_node ctx n h.1 s ts htokens
    obtain ⟨ms, hms, hmore⟩ := run_nodes ctx rest h.2 (s.add m) us hus
    refine ⟨m :: ms, by simp [nodesUnplaced, hm, hms], ?_⟩
    rw [ctx.run_append, hrun]
    change ctx.run (s.add m) us = _
    rw [hmore]
    simp [AutomatonState.add]

/-- What follows the body of an arm, up to the end of the choice. -/
theorem run_arms (ctx : Context) (arms : Arms) (h : ArmsWellFormed arms) (outer : List Node)
    (done : DoneArms) (cond : Snippet) (body : List Node) (stack : List OpenBlock)
    (ts : List Token) (hts : ts.map Token.bare = (armsItems .elifWord arms).map Item.bare) :
    ∃ more, armsUnplaced more = armsUnplaced arms ∧
      ctx.run { nodes := body, stack := .arm outer done cond :: stack } ts =
        .ok { nodes := outer ++ [.choice (armsFrom (done ++ [(cond, body)]) more)], stack } := by
  cases arms with
  | stop =>
    obtain ⟨t, rfl, ht⟩ := List.map_eq_singleton_iff.1 hts
    exact ⟨.stop, rfl, by rw [ctx.run_cons, ctx.step_bareTag ht]; rfl⟩
  | otherwise other =>
    simp only [armsItems, List.map_cons, List.map_append] at hts
    obtain ⟨t, ts, rfl, ht, hts⟩ := List.map_eq_cons_iff.1 hts
    obtain ⟨ts, us, rfl, htokens, hus⟩ := List.map_eq_append_iff.1 hts
    obtain ⟨u, rfl, hu⟩ := List.map_eq_singleton_iff.1 hus
    obtain ⟨ms, hms, hrun⟩ := run_nodes ctx other h
      { nodes := [], stack := .otherwise outer (done ++ [(cond, body)]) :: stack } ts htokens
    refine ⟨.otherwise ms, by simp [armsUnplaced, hms], ?_⟩
    rw [ctx.run_cons, ctx.step_bareTag ht]
    change ctx.run _ (ts ++ [u]) = _
    rw [ctx.run_append, hrun]
    change ctx.run _ [u] = _
    rw [ctx.run_cons, ctx.step_bareTag hu]
    rfl
  | arm next other rest =>
    obtain ⟨hnext, hother, hrest⟩ := h
    simp only [armsItems, List.map_cons, List.map_append] at hts
    obtain ⟨t, ts, rfl, ht, hts⟩ := List.map_eq_cons_iff.1 hts
    obtain ⟨ts, us, rfl, htokens, hus⟩ := List.map_eq_append_iff.1 hts
    obtain ⟨hstep, hread⟩ := ctx.conditionIn_tagItem hnext ht
    obtain ⟨ms, hms, hrun⟩ := run_nodes ctx other hother
      { nodes := [], stack := .arm outer (done ++ [(cond, body)]) (ctx.placed t next.source) ::
          stack } ts htokens
    obtain ⟨more, hmore, hend⟩ := run_arms ctx rest hrest outer (done ++ [(cond, body)])
      (ctx.placed t next.source) ms stack us hus
    refine ⟨.arm (ctx.placed t next.source) ms more, by simp [armsUnplaced, hms, hmore], ?_⟩
    rw [ctx.run_cons, hstep, Context.stepTag, hread]
    change ctx.run _ (ts ++ us) = _
    rw [ctx.run_append, hrun]
    rw [Context.armsFrom_append] at hend
    exact hend

end

/-- **What was written is read back.** -/
theorem exists_parse_print {ns : List Node} (h : NodesWellFormed ns) :
    ∃ ms, parse (print ns) = .ok ms ∧ nodesUnplaced ms = nodesUnplaced ns := by
  obtain ⟨htokens, offset, hending⟩ := bareTokens_printItems (fits_of_mem_nodesItems ns h)
  obtain ⟨ms, hms, hrun⟩ := run_nodes (Context.of (print ns)) ns h .start _ htokens
  refine ⟨ms, ?_, hms⟩
  rw [parse_eq_resume, automaton, Context.resume_eq_ok_iff]
  exact ⟨⟨offset, hending⟩, hrun⟩

/-! ## 4. The round trip -/

/-- **Writing a tree and reading it back gives the tree, positions apart.**  Every well-formed tree
comes back, and reading any template gives a well-formed tree, which comes back too. -/
theorem parse_print :
    (∀ ns : List Node, NodesWellFormed ns →
      ∃ ms, parse (print ns) = .ok ms ∧ nodesUnplaced ms = nodesUnplaced ns) ∧
    ∀ (source : List Char) (ns : List Node), parse source = .ok ns →
      NodesWellFormed ns ∧
        ∃ ms, parse (print ns) = .ok ms ∧ nodesUnplaced ms = nodesUnplaced ns := by
  refine ⟨fun ns h => exists_parse_print h, fun source ns h => ?_⟩
  have hwell := wellFormed_of_parse h
  exact ⟨hwell, exists_parse_print hwell⟩

/-- The theorem at a loop whose variable is named `in`, with two texts in its body, the second of
which ends with a brace. -/
theorem parse_print_loop :
    ∃ ns : List Node, NodesWellFormed ns ∧
      print ns = "\x7b% for in in in %\x7da\x7b##\x7d\x7b \x7b%- endfor %\x7d".toList ∧
      ∃ ms, parse (print ns) = .ok ms ∧ nodesUnplaced ms = nodesUnplaced ns := by
  have hopen (c : Char) : ∀ d : Delimiter, ¬d.opening <:+: [c] := by
    intro d h
    exact absurd h.length_le (by simp [Delimiter.opening])
  have hwell : NodesWellFormed
      [.loop "in".toList ⟨"in".toList, default⟩ [.text ['a'], .text ['\x7b']]] := by
    refine ⟨⟨by decide, ⟨tight_of_isIdentifier (by decide), ?_⟩, ⟨?_, ?_, trivial⟩⟩, trivial⟩
    · exact fun h => absurd (h.subset (List.mem_cons_self ..)) (by decide)
    · exact ⟨by decide, hopen _⟩
    · exact ⟨by decide, hopen _⟩
  exact ⟨_, hwell, by decide, parse_print.1 _ hwell⟩

end TemplateCompiler.Template
