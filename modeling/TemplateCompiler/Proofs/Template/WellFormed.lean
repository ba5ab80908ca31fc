import TemplateCompiler.Proofs.Template.Automaton
import TemplateCompiler.Proofs.Template.Decomposition
import TemplateCompiler.Proofs.Text.Trim

/-! # Well-formed templates

Which trees can be the reading of a template?  Texts hold no opening delimiter and are not empty,
names are identifiers, expressions have no blanks around them and do not hold the delimiter that
would have closed their block, and a choice has a condition.

`wellFormed_of_parse` says that reading gives such trees only.  The tokens satisfy what can be said
of them one by one (`fits_of_mem_tokenize`); one step of the automaton keeps the nodes and the open
blocks well-formed (`step_wellFormed`), and so do all of them.  That every well-formed tree is a
reading is shown in `RoundTrip`.
-/

namespace TemplateCompiler.Template

open Text

/-! ## 1. Well-formed trees -/

/-- A text that is a token of its own: there is something, and no block opens in it. -/
def IsText (value : List Char) : Prop := value ≠ [] ∧ ∀ d : Delimiter, ¬d.opening <:+: value

/-- An expression that can stand in a block: there is something, with no blank around it, and it
does not hold the closing delimiter. -/
structure Snippet.FitsIn (d : Delimiter) (s : Snippet) : Prop where
  tight : Tight s.source
  closing : ¬d.closing <:+: s.source

/-- Whether there is a condition among the arms. -/
def Arms.hasArm : Arms → Bool
  | .arm .. => true
  | _ => false

mutual

/-- The nodes that reading can give. -/
def Node.WellFormed : Node → Prop
  | .text value => IsText value
  | .output expr => expr.FitsIn .output
  | .assign name value => isIdentifier name = true ∧ value.FitsIn .tag
  | .choice arms => arms.hasArm = true ∧ ArmsWellFormed arms
  | .loop name items body => isIdentifier name = true ∧ items.FitsIn .tag ∧ NodesWellFormed body
  | .template _ => False

/-- Each node is well-formed. -/
def NodesWellFormed : List Node → Prop
  | [] => True
  | n :: rest => n.WellFormed ∧ NodesWellFormed rest

/-- Each condition fits in a tag, and each body is well-formed. -/
def ArmsWellFormed : Arms → Prop
  | .stop => True
  | .otherwise body => NodesWellFormed body
  | .arm condition body rest =>
    condition.FitsIn .tag ∧ NodesWellFormed body ∧ ArmsWellFormed rest

end

/-! ## 2. Tokens of a template -/

/-- What every token of a template satisfies: a block does not hold its closing delimiter. -/
def Token.Fits (t : Token) : Prop :=
  match t.kind with
  | .text => IsText t.value
  | .output => ¬Delimiter.output.closing <:+: t.value
  | .tag => ¬Delimiter.tag.closing <:+: t.value

theorem isInfix_trimmedRun (atStart atEnd : Bool) (text : List Char) :
    trimmedRun atStart atEnd text <:+: text := by
  cases atStart <;> cases atEnd
  · exact List.infix_rfl
  · exact (isPrefix_trimEnd text).isInfix
  · exact (isSuffix_trimStart text).isInfix
  · exact isInfix_trim text

/-- No closing delimiter lies in the body of a block that is cut where it ends. -/
theorem Block.Exact.not_closing_body {b : Block} (h : b.Exact) :
    ¬b.delimiter.closing <:+: b.body := by
  rintro ⟨p, q, heq⟩
  have hnil := h.closing p (q ++ dash b.trimsAfter ++ b.delimiter.closing)
    (by simp [Block.inside, ← heq])
  simp [Delimiter.closing] at hnil

theorem fits_of_mem_tokensOf {s : List Char} {pieces : List Segment} {ending last : Ending}
    (h : Decomposition s pieces ending) (offset : Nat) (atStart : Bool) :
    ∀ t ∈ tokensOf last offset atStart pieces, t.Fits := by
  induction h generalizing offset atStart with
  | complete => simp [tokensOf]
  | unclosed _ => simp [tokensOf]
  | @run text rest pieces ending hne hfirst hend _ ih =>
    have hopen : ∀ d : Delimiter, ¬d.opening <:+: text := by
      rintro d ⟨p, q, heq⟩
      refine hfirst p (d.opening ++ q) (by simp [← heq]) (by simp [Delimiter.opening]) ?_
      exact ⟨d, q ++ rest, by simp⟩
    intro t ht
    simp only [tokensOf] at ht
    split at ht
    · exact ih _ _ t ht
    · rename_i hvalue
      rcases List.mem_cons.1 ht with rfl | ht
      · refine ⟨by simpa using hvalue, fun d hd => hopen d (hd.trans (isInfix_trimmedRun _ _ _))⟩
      · exact ih _ _ t ht
  | @block b rest pieces ending hb _ ih =>
    have hbody := hb.not_closing_body
    intro t ht
    simp only [tokensOf] at ht
    cases hd : b.delimiter with
    | comment =>
      simp only [hd, Delimiter.tokenKind?] at ht
      exact ih _ _ t ht
    | _ =>
      rw [hd] at hbody
      simp only [hd, Delimiter.tokenKind?] at ht
      rcases List.mem_cons.1 ht with rfl | ht
      · exact hbody
      · exact ih _ _ t ht

/-- **Every token of a template fits.** -/
theorem fits_of_mem_tokenize {s : List Char} : ∀ t ∈ (tokenize s).tokens, t.Fits :=
  fits_of_mem_tokensOf (decomposition_segments s) 0 false

/-! ## 3. What is read is well-formed -/

theorem isInfix_afterFirstWord (tag : List Char) : afterFirstWord tag <:+: tag :=
  ((isInfix_trim _).trans (List.dropWhile_suffix _).isInfix).trans (isInfix_trim tag)

theorem isInfix_of_partsAt {width : Nat} {places : List (Nat × Char)} {cs before after : List Char}
    (h : partsAt width places cs = some (before, after)) : after <:+: cs := by
  obtain ⟨p, -, hp⟩ := Option.map_eq_some_iff.1 h
  cases hp
  exact (List.drop_suffix _ _).isInfix

/-- A part of a tag does not hold the closing delimiter either. -/
theorem Token.Fits.placed {t : Token} (h : t.Fits) (hkind : t.kind = .tag) (ctx : Context)
    {expr : List Char} (htight : Tight expr) (hin : expr <:+: afterFirstWord t.value) :
    (ctx.placed t expr).FitsIn .tag := by
  rw [Token.Fits, hkind] at h
  exact ⟨htight, fun hclosing => h ((hclosing.trans hin).trans (isInfix_afterFirstWord t.value))⟩

/-- The two parts of a `for` or `set` tag are a name and an expression. -/
theorem Token.Fits.named {t : Token} (h : t.Fits) (hkind : t.kind = .tag) (ctx : Context)
    {form name missing : TagFault} {width : Nat} {places : List (Nat × Char)} {v e : List Char}
    (hparts : named form name missing (partsAt width places (afterFirstWord t.value)) =
      .ok (v, e)) : isIdentifier v = true ∧ (ctx.placed t e).FitsIn .tag := by
  obtain ⟨hname, htight, before, after, hcut, hin⟩ := named_eq_ok hparts
  exact ⟨hname, h.placed hkind ctx htight (hin.trans (isInfix_of_partsAt hcut))⟩

/-- What a tag is read as, if its form is right. -/
theorem Context.eq_ok_of_blame {α : Type} (ctx : Context) {t : Token} {r : Except TagFault α}
    {a : α} (h : ctx.blame t r = .ok a) : r = .ok a := by
  cases r with
  | error e => cases h
  | ok b =>
    cases h
    rfl

/-- What the condition of a tag is, if there is one. -/
theorem Context.eq_placed_of_conditionIn {ctx : Context} {t : Token} {cond : Snippet}
    (h : ctx.conditionIn t = .ok cond) :
    cond = ctx.placed t (afterFirstWord t.value) ∧ afterFirstWord t.value ≠ [] := by
  obtain ⟨c, hc, rfl⟩ := eq_ok_of_map h
  have hform := ctx.eq_ok_of_blame hc
  unfold conditionForm at hform
  split at hform
  · cases hform
  · rename_i hne
    cases hform
    exact ⟨rfl, hne⟩

section
variable {ctx : Context} {t : Token}

theorem fitsIn_of_conditionIn {cond : Snippet} (ht : t.Fits) (hkind : t.kind = .tag)
    (h : ctx.conditionIn t = .ok cond) : cond.FitsIn .tag := by
  obtain ⟨rfl, hne⟩ := ctx.eq_placed_of_conditionIn h
  exact ht.placed hkind ctx (tight_trim hne) List.infix_rfl

theorem fitsIn_of_loopIn {v : List Char} {items : Snippet} (ht : t.Fits) (hkind : t.kind = .tag)
    (h : ctx.loopIn t = .ok (v, items)) : isIdentifier v = true ∧ items.FitsIn .tag := by
  obtain ⟨⟨v, e⟩, hr, heq⟩ := eq_ok_of_map h
  cases heq
  exact ht.named hkind ctx (ctx.eq_ok_of_blame hr)

theorem fitsIn_of_assignmentIn {name : List Char} {value : Snippet} (ht : t.Fits)
    (hkind : t.kind = .tag) (h : ctx.assignmentIn t = .ok (name, value)) :
    isIdentifier name = true ∧ value.FitsIn .tag := by
  obtain ⟨⟨v, e⟩, hr, heq⟩ := eq_ok_of_map h
  cases heq
  exact ht.named hkind ctx (ctx.eq_ok_of_blame hr)

end

/-- What holds of a block that is open. -/
def OpenBlock.WellFormed : OpenBlock → Prop
  | .arm outer done cond =>
    NodesWellFormed outer ∧ (∀ p ∈ done, p.1.FitsIn .tag ∧ NodesWellFormed p.2) ∧
      cond.FitsIn .tag
  | .otherwise outer done =>
    NodesWellFormed outer ∧ (∀ p ∈ done, p.1.FitsIn .tag ∧ NodesWellFormed p.2) ∧ done ≠ []
  | .loop outer name items =>
    NodesWellFormed outer ∧ isIdentifier name = true ∧ items.FitsIn .tag

/-- The nodes of the innermost body and the open blocks are well-formed. -/
structure AutomatonState.WellFormed (s : AutomatonState) : Prop where
  nodes : NodesWellFormed s.nodes
  stack : ∀ b ∈ s.stack, b.WellFormed

theorem NodesWellFormed.concat {ns : List Node} {n : Node} (h : NodesWellFormed ns)
    (hn : n.WellFormed) : NodesWellFormed (ns ++ [n]) := by
  induction ns with
  | nil => exact ⟨hn, trivial⟩
  | cons m ns ih => exact ⟨h.1, ih h.2⟩

theorem AutomatonState.WellFormed.add {s : AutomatonState} (h : s.WellFormed) {n : Node}
    (hn : n.WellFormed) : (s.add n).WellFormed :=
  ⟨h.nodes.concat hn, h.stack⟩

/-- A block is opened. -/
theorem AutomatonState.WellFormed.push {s : AutomatonState} (h : s.WellFormed) {b : OpenBlock}
    (hb : b.WellFormed) : AutomatonState.WellFormed { nodes := [], stack := b :: s.stack } := by
  refine ⟨trivial, fun c hc => ?_⟩
  rcases List.mem_cons.1 hc with rfl | hc
  · exact hb
  · exact h.stack c hc

theorem armsWellFormed_armsFrom {done : DoneArms} {rest : Arms}
    (hdone : ∀ p ∈ done, p.1.FitsIn .tag ∧ NodesWellFormed p.2) (hrest : ArmsWellFormed rest) :
    ArmsWellFormed (armsFrom done rest) := by
  induction done with
  | nil => exact hrest
  | cons p done ih =>
    obtain ⟨hcond, hbody⟩ := hdone p (by simp)
    exact ⟨hcond, hbody, ih fun q hq => hdone q (by simp [hq])⟩

theorem wellFormed_choice {done : DoneArms} {rest : Arms} (hne : done ≠ [])
    (hdone : ∀ p ∈ done, p.1.FitsIn .tag ∧ NodesWellFormed p.2) (hrest : ArmsWellFormed rest) :
    (Node.choice (armsFrom done rest)).WellFormed := by
  refine ⟨?_, armsWellFormed_armsFrom hdone hrest⟩
  obtain ⟨p, more, rfl⟩ := List.exists_cons_of_ne_nil hne
  rfl

/-- The arm that is being read joins those that are finished. -/
theorem forall_mem_concat {done : DoneArms} {cond : Snippet} {body : List Node}
    (hdone : ∀ p ∈ done, p.1.FitsIn .tag ∧ NodesWellFormed p.2) (hcond : cond.FitsIn .tag)
    (hbody : NodesWellFormed body) :
    ∀ p ∈ done ++ [(cond, body)], p.1.FitsIn .tag ∧ NodesWellFormed p.2 := by
  intro p hp
  rcases List.mem_append.1 hp with hp | hp
  · exact hdone p hp
  · obtain rfl := List.mem_singleton.1 hp
    exact ⟨hcond, hbody⟩

section
variable {nodes outer : List Node} {done : DoneArms} {rest : List OpenBlock}

/-- Without its innermost block, a state is well-formed, and so are the arms of the block with the
one that was being read. -/
theorem AutomatonState.WellFormed.leaveArm {cond : Snippet}
    (h : AutomatonState.WellFormed { nodes, stack := .arm outer done cond :: rest }) :
    AutomatonState.WellFormed { nodes := outer, stack := rest } ∧
      ∀ p ∈ done ++ [(cond, nodes)], p.1.FitsIn .tag ∧ NodesWellFormed p.2 := by
  obtain ⟨houter, hdone, hcond⟩ := h.stack (.arm outer done cond) (by simp)
  exact ⟨⟨houter, fun b hb => h.stack b (by simp [hb])⟩, forall_mem_concat hdone hcond h.nodes⟩

/-- The same after an `else`, where the choice is complete. -/
theorem AutomatonState.WellFormed.leaveOtherwise
    (h : AutomatonState.WellFormed { nodes, stack := .otherwise outer done :: rest }) :
    AutomatonState.WellFormed { nodes := outer, stack := rest } ∧
      (Node.choice (armsFrom done (.otherwise nodes))).WellFormed := by
  obtain ⟨houter, hdone, hne⟩ := h.stack (.otherwise outer done) (by simp)
  exact ⟨⟨houter, fun b hb => h.stack b (by simp [hb])⟩, wellFormed_choice hne hdone h.nodes⟩

/-- The same for a loop. -/
theorem AutomatonState.WellFormed.leaveLoop {v : List Char} {items : Snippet}
    (h : AutomatonState.WellFormed { nodes, stack := .loop outer v items :: rest }) :
    AutomatonState.WellFormed { nodes := outer, stack := rest } ∧
      (Node.loop v items nodes).WellFormed := by
  obtain ⟨houter, hname, hitems⟩ := h.stack (.loop outer v items) (by simp)
  exact ⟨⟨houter, fun b hb => h.stack b (by simp [hb])⟩, hname, hitems, h.nodes⟩

end

namespace Context

variable (ctx : Context)

/-- An accepted tag keeps the state well-formed. -/
theorem TagStep.wellFormed {ctx : Context} {s s' : AutomatonState} {t : Token} {k : Keyword}
    (h : ctx.TagStep t k s s') (hs : s.WellFormed) (ht : t.Fits) (hkind : t.kind = .tag) :
    s'.WellFormed := by
  cases h with
  | opensChoice hcond => exact hs.push ⟨hs.nodes, by simp, fitsIn_of_conditionIn ht hkind hcond⟩
  | opensLoop hhead => exact hs.push ⟨hs.nodes, fitsIn_of_loopIn ht hkind hhead⟩
  | assigns hset => exact hs.add (fitsIn_of_assignmentIn ht hkind hset)
  | nextArm hnext =>
    obtain ⟨hbelow, hdone⟩ := hs.leaveArm
    exact hbelow.push ⟨hbelow.nodes, hdone, fitsIn_of_conditionIn ht hkind hnext⟩
  | lastArm =>
    obtain ⟨hbelow, hdone⟩ := hs.leaveArm
    exact hbelow.push ⟨hbelow.nodes, hdone, by simp⟩
  | closesArm =>
    obtain ⟨hbelow, hdone⟩ := hs.leaveArm
    exact hbelow.add (wellFormed_choice (by simp) hdone trivial)
  | closesOtherwise =>
    obtain ⟨hbelow, hchoice⟩ := hs.leaveOtherwise
    exact hbelow.add hchoice
  | closesLoop =>
    obtain ⟨hbelow, hloop⟩ := hs.leaveLoop
    exact hbelow.add hloop

/-- **One token keeps the state well-formed.** -/
theorem step_wellFormed {s s' : AutomatonState} {t : Token} (hs : s.WellFormed) (ht : t.Fits)
    (h : ctx.step s t = .ok s') : s'.WellFormed := by
  unfold step at h
  cases hkind : t.kind with
  | text =>
    rw [hkind] at h
    cases h
    rw [Token.Fits, hkind] at ht
    exact hs.add ht
  | output =>
    rw [hkind] at h
    simp only at h
    split at h
    · cases h
    · rename_i hne
      cases h
      rw [Token.Fits, hkind] at ht
      exact hs.add ⟨tight_trim hne, fun hin => ht (hin.trans (isInfix_trim t.value))⟩
  | tag =>
    rw [hkind] at h
    simp only at h
    split at h
    · cases h
    · exact (tagStep_of_stepTag h).wellFormed hs ht hkind

/-- **So do all tokens, one after another.** -/
theorem run_wellFormed {s s' : AutomatonState} {ts : List Token} (hs : s.WellFormed)
    (hts : ∀ t ∈ ts, t.Fits) (h : ctx.run s ts = .ok s') : s'.WellFormed := by
  induction ts generalizing s with
  | nil =>
    cases h
    exact hs
  | cons t ts ih =>
    rw [run, List.foldlM_cons] at h
    obtain ⟨mid, hmid, h⟩ := eq_ok_of_bind h
    exact ih (ctx.step_wellFormed hs (hts t (by simp)) hmid) (fun u hu => hts u (by simp [hu])) h

end Context

/-- **What is read is well-formed.** -/
theorem wellFormed_of_parse {source : List Char} {ns : List Node} (h : parse source = .ok ns) :
    NodesWellFormed ns := by
  rw [parse_eq_resume, automaton, Context.resume_eq_ok_iff] at h
  obtain ⟨-, hrun⟩ := h
  have hstart : AutomatonState.start.WellFormed := ⟨trivial, by simp [AutomatonState.start]⟩
  exact (Context.run_wellFormed _ hstart fits_of_mem_tokenize hrun).nodes

end TemplateCompiler.Template
