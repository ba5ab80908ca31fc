import TemplateCompiler.Proofs.Target.FirstRefusal
import TemplateCompiler.Proofs.Template.Placement
import TemplateCompiler.Target.Renderer

/-! # Every error points at its tag

An error of the compiler carries the position of a tag, unless the template ends too early.  Main
statement: that position is right (`compile_error_located`).  It is the position of a byte offset of
the template, the delimiter of the tag stands there, and the tag is the one that the error is about:
the first whose expression or target is refused, if it is an expression that is refused.

Positions come from tokens.  That a delimiter stands at the offset of a token is a fact about the
pieces of the template (`standsAt_of_mem_tokens`); which token an error comes from is a fact about
one step of the automaton (`located_of_step`), or, for expressions, about the order of the checks.
-/

namespace TemplateCompiler.Target

open Text Reading Template

/-! ## 1. Texts at an offset -/

/-- A text stands at a byte offset of a source. -/
def StandsAt (source : List Char) (offset : Nat) (text : List Char) : Prop :=
  ∃ before after, source = before ++ text ++ after ∧ byteLength before = offset

/-- A position is that of its offset, and a text stands there. -/
def PointsAt (source : List Char) (p : Position) (text : List Char) : Prop :=
  p = Position.locate source p.offset ∧ StandsAt source p.offset text

variable {source : List Char}

theorem StandsAt.pointsAt {offset : Nat} {text : List Char} (h : StandsAt source offset text) :
    PointsAt source (Position.locate source offset) text := by
  have hoffset : (Position.locate source offset).offset = offset := by
    obtain ⟨before, after, rfl, rfl⟩ := h
    simp only [Position.locate, byteLength_append]
    omega
  refine ⟨?_, ?_⟩
  · rw [hoffset]
  · rw [hoffset]
    exact h

theorem StandsAt.of_append {offset : Nat} {text more : List Char}
    (h : StandsAt source offset (text ++ more)) : StandsAt source offset text := by
  obtain ⟨before, after, rfl, hoffset⟩ := h
  exact ⟨before, more ++ after, by simp, hoffset⟩

/-- The delimiter that opens the block of a token. -/
def openingOf : TokenKind → List Char
  | .text => []
  | .output => Delimiter.output.opening
  | .tag => Delimiter.tag.opening

theorem standsAt_piece {pieces : List Segment} {ending : Ending} {i : Nat} {p : Segment}
    (h : Decomposition source pieces ending) (hp : pieces[i]? = some p) :
    StandsAt source (offsetAt pieces i) p.source := by
  have hsplit : pieces = pieces.take i ++ p :: pieces.drop (i + 1) := by
    obtain ⟨hi, rfl⟩ := List.getElem?_eq_some_iff.1 hp
    rw [← List.drop_eq_getElem_cons hi, List.take_append_drop]
  refine ⟨((pieces.take i).map Segment.source).flatten,
    ((pieces.drop (i + 1)).map Segment.source).flatten ++ ending.source, ?_, rfl⟩
  conv => lhs; rw [← h.spells, hsplit]
  simp

/-- **At the offset of a token stands the delimiter of its block.** -/
theorem standsAt_of_mem_tokens {t : Template.Token} (h : t ∈ (tokenize source).tokens) :
    StandsAt source t.offset (openingOf t.kind) := by
  have hpieces := decomposition_segments source
  rw [tokenize_eq hpieces] at h
  obtain ⟨i, -, htoken⟩ := List.mem_filterMap.1 h
  obtain ⟨p, hp, hof⟩ := Option.bind_eq_some_iff.1 htoken
  have hstands := standsAt_piece hpieces hp
  rw [offset_of_tokenOf? hof]
  cases p with
  | run text =>
    simp only [tokenOf?] at hof
    split at hof
    · cases hof
    · cases hof
      have hnothing : StandsAt source (offsetAt (segments source).1 i) ([] ++ text) := hstands
      exact hnothing.of_append
  | block b =>
    have hopening : openingOf t.kind = b.delimiter.opening := by
      simp only [tokenOf?] at hof
      split at hof <;> rename_i hd <;> cases hof <;> rw [hd] <;> rfl
    rw [Segment.source, Block.source_eq] at hstands
    rw [hopening]
    exact hstands.of_append

/-- A block that is never closed opens where the tokens end. -/
theorem standsAt_of_unclosed {d : Delimiter} {offset : Nat}
    (h : (tokenize source).ending = .unclosed d offset) : StandsAt source offset d.opening := by
  have hpieces := decomposition_segments source
  rw [tokenize_eq hpieces] at h
  cases hending : (segments source).2 with
  | complete =>
    rw [hending] at h
    cases h
  | unclosed d' rest =>
    rw [hending] at h hpieces
    cases h
    refine ⟨_, rest, ?_, rfl⟩
    have hspells := hpieces.spells
    rw [Ending.source, ← List.append_assoc] at hspells
    rw [List.take_length]
    exact hspells.symm

/-! ## 2. What an error says about its tag -/

/-- The token at a position. -/
def TokenAt (source : List Char) (p : Position) (t : Template.Token) : Prop :=
  t ∈ (tokenize source).tokens ∧ p = Position.locate source t.offset

/-- An error is of a kind that a template can have and points at the tag it is about. -/
def Located (fields : List (List Char)) (source : List Char) : Error → Prop
  | .unclosed d p => PointsAt source p d.opening
  | .unsupportedTag head tag p =>
    PointsAt source p Delimiter.tag.opening ∧
      ∃ t, TokenAt source p t ∧ head = firstWord t.value ∧ tag = stripped t.value
  | .malformedTag tag _ p =>
    (PointsAt source p Delimiter.output.opening ∨ PointsAt source p Delimiter.tag.opening) ∧
      ∃ t, TokenAt source p t ∧ stripped tag = stripped t.value
  | .unexpectedEnd _ => True
  | .mismatchedTag _ found p =>
    PointsAt source p Delimiter.tag.opening ∧
      ∃ t, TokenAt source p t ∧ firstWord t.value = found.word
  | .unsupportedExpr expr fault position =>
    ∃ p, position = some p ∧
      (PointsAt source p Delimiter.output.opening ∨ PointsAt source p Delimiter.tag.opening) ∧
      ∃ before t after, (tokenize source).tokens = before ++ t :: after ∧
        p = Position.locate source t.offset ∧ tokenRefusal? fields t = some ⟨expr, fault⟩ ∧
        ∀ u ∈ before, tokenRefusal? fields u = none
  | .nestedTemplate => False

/-! ## 3. Errors of reading -/

section
variable {ctx : Context} {s : AutomatonState} {t : Template.Token} {e : Error}

/-- What is read of a tag fails with a fault of the tag. -/
theorem eq_malformedTag_of_blame {α β : Type} {r : Except TagFault α} {f : α → β}
    (h : (ctx.blame t r).map f = .error e) :
    ∃ fault, e = .malformedTag (stripped t.value) fault (ctx.position t) := by
  cases r with
  | error fault =>
    cases h
    exact ⟨fault, rfl⟩
  | ok a => cases h

/-- A tag with a keyword has the wrong form or stands in the wrong place. -/
theorem error_of_stepTag {k : Keyword} (h : ctx.stepTag s t k = .error e) :
    (∃ fault, e = .malformedTag (stripped t.value) fault (ctx.position t)) ∨
      ∃ expected, e = .mismatchedTag expected k (ctx.position t) := by
  cases k with
  | ifWord =>
    rcases eq_error_of_bind h with h | ⟨cond, -, h⟩
    · exact .inl (eq_malformedTag_of_blame h)
    · cases h
  | forWord =>
    rcases eq_error_of_bind h with h | ⟨head, -, h⟩
    · exact .inl (eq_malformedTag_of_blame h)
    · cases h
  | setWord =>
    rcases eq_error_of_bind h with h | ⟨assigned, -, h⟩
    · exact .inl (eq_malformedTag_of_blame h)
    · cases h
  | elifWord =>
    simp only [Context.stepTag] at h
    split at h
    · rcases eq_error_of_bind h with h | ⟨cond, -, h⟩
      · exact .inl (eq_malformedTag_of_blame h)
      · cases h
    · cases h
      exact .inr ⟨_, rfl⟩
  | elseWord =>
    simp only [Context.stepTag] at h
    split at h <;> cases h
    exact .inr ⟨_, rfl⟩
  | endifWord =>
    simp only [Context.stepTag] at h
    split at h <;> cases h
    exact .inr ⟨_, rfl⟩
  | endforWord =>
    simp only [Context.stepTag] at h
    split at h <;> cases h
    exact .inr ⟨_, rfl⟩

end

variable {fields : List (List Char)} {e : Error}

/-- **A token that the automaton does not accept is the one that the error points at.** -/
theorem located_of_step {s : AutomatonState} {t : Template.Token}
    (ht : t ∈ (tokenize source).tokens) (h : (Context.of source).step s t = .error e) :
    Located fields source e := by
  have hat : TokenAt source ((Context.of source).position t) t := ⟨ht, rfl⟩
  have hpoints : PointsAt source ((Context.of source).position t) (openingOf t.kind) :=
    (standsAt_of_mem_tokens ht).pointsAt
  unfold Context.step at h
  cases hkind : t.kind with
  | text =>
    rw [hkind] at h
    cases h
  | output =>
    rw [hkind] at h hpoints
    simp only at h
    split at h
    · cases h
      exact ⟨.inl hpoints, t, hat, rfl⟩
    · cases h
  | tag =>
    rw [hkind] at h hpoints
    simp only at h
    split at h
    · cases h
      exact ⟨hpoints, t, hat, rfl, rfl⟩
    · rename_i k hword
      rcases error_of_stepTag h with ⟨fault, rfl⟩ | ⟨expected, rfl⟩
      · exact ⟨.inr hpoints, t, hat, trim_trim t.value⟩
      · exact ⟨hpoints, t, hat, firstWord_of_keyword? hword⟩

theorem located_of_parse (h : parse source = .error e) : Located fields source e := by
  rw [parse_eq_resume, automaton, Context.resume_eq_error_iff, Context.run_eq_error_iff] at h
  rcases h with ⟨before, t, after, s, htokens, -, hstep⟩ | ⟨s, -, hfinish⟩
  · exact located_of_step (by rw [htokens]; simp) hstep
  · rcases (Context.of source).finish_eq_error_iff.1 hfinish with
      ⟨d, offset, hending, rfl⟩ | ⟨offset, b, rest, -, -, rfl⟩
    · exact (standsAt_of_unclosed hending).pointsAt
    · trivial

/-! ## 4. Errors of expressions -/

/-- The first failing check of some tokens is a check of the first token that is refused. -/
theorem exists_refusal_of_firstError? {place : Template.Token → Position} {ts : List Template.Token}
    (h : firstError? fields (ts.flatMap fun t => tokenChecks (place t) t) = some e) :
    ∃ before t after r, ts = before ++ t :: after ∧ tokenRefusal? fields t = some r ∧
      e = .unsupportedExpr r.expr r.fault (some (place t)) ∧
      ∀ u ∈ before, tokenRefusal? fields u = none := by
  induction ts with
  | nil => cases h
  | cons t ts ih =>
    rw [List.flatMap_cons, firstError?_append, firstError?_tokenChecks] at h
    cases hrefusal : tokenRefusal? fields t with
    | some r =>
      rw [hrefusal] at h
      cases h
      exact ⟨[], t, ts, r, rfl, hrefusal, rfl, by simp⟩
    | none =>
      rw [hrefusal] at h
      obtain ⟨before, u, after, r, rfl, hr, he, hbefore⟩ := ih h
      refine ⟨t :: before, u, after, r, rfl, hr, he, fun v hv => ?_⟩
      rcases List.mem_cons.1 hv with rfl | hv
      · exact hrefusal
      · exact hbefore v hv

/-- Plain text is never refused. -/
theorem kind_ne_text_of_refusal {t : Template.Token} {r : Refusal}
    (h : tokenRefusal? fields t = some r) :
    t.kind ≠ .text := by
  intro hkind
  simp [tokenRefusal?, tokenTarget?, tokenExpr?, hkind] at h

theorem located_of_refusal {before after : List Template.Token} {t : Template.Token} {r : Refusal}
    (htokens : (tokenize source).tokens = before ++ t :: after)
    (hr : tokenRefusal? fields t = some r) (hbefore : ∀ u ∈ before, tokenRefusal? fields u = none) :
    Located fields source
      (.unsupportedExpr r.expr r.fault (some (Position.locate source t.offset))) := by
  have hpoints := (standsAt_of_mem_tokens (t := t) (by rw [htokens]; simp)).pointsAt
  refine ⟨_, rfl, ?_, before, t, after, htokens, rfl, hr, hbefore⟩
  cases hkind : t.kind with
  | text => exact absurd hkind (kind_ne_text_of_refusal hr)
  | output =>
    rw [hkind] at hpoints
    exact .inl hpoints
  | tag =>
    rw [hkind] at hpoints
    exact .inr hpoints

/-- **Every error of a template points at its tag.**  If the names of the fields are identifiers,
what goes wrong is one of the six things that can be wrong with a template.  All but an early end
carry a position, which is that of its own offset, and there the delimiter stands that the error
reports, or that opens a tag, or an output or a tag.  The tag there is the one that the error is
about; if an expression is not supported, it is the first tag whose target or expression is
refused. -/
theorem compile_error_located (fields : List (List Char)) (name template : List Char) (e : Error)
    (hfields : ∀ f ∈ fields, isIdentifier f = true)
    (h : compile fields name template = .error e) : Located fields template e := by
  unfold compile at h
  split at h
  · rename_i f hfind
    have hf := List.find?_some hfind
    rw [hfields f (List.mem_of_find?_eq_some hfind)] at hf
    cases hf
  · rcases eq_error_of_bind h with h | ⟨nodes, hparse, h⟩
    · exact located_of_parse h
    · rcases eq_error_of_bind h with h | ⟨body, -, h⟩
      · have hfirst := failure?_compileNodes ⟨fields, []⟩ nodes
        rw [failure?_eq_some_iff.2 h, nodesChecks_of_parse hparse] at hfirst
        obtain ⟨before, t, after, r, htokens, hr, rfl, hbefore⟩ :=
          exists_refusal_of_firstError? hfirst.symm
        exact located_of_refusal htokens hr hbefore
      · cases h

/-- A template whose second line has an expression that is not supported, behind a character of two
bytes and inside a loop. -/
def refusedTemplate : List Char :=
  "é
{% for m in rows %} {{ m.trim() }}{% endfor %}".toList

/-- The theorem at such a template: the error points at the output, not at the loop around it. -/
theorem compile_error_located_call :
    compile ["rows".toList] "T".toList refusedTemplate =
        .error (.unsupportedExpr "m.trim()".toList (.methodCall "trim".toList)
          (some ⟨23, 2, 21⟩)) ∧
      Located ["rows".toList] refusedTemplate
        (.unsupportedExpr "m.trim()".toList (.methodCall "trim".toList) (some ⟨23, 2, 21⟩)) := by
  have h : failure? (compile ["rows".toList] "T".toList refusedTemplate) =
      some (.unsupportedExpr "m.trim()".toList (.methodCall "trim".toList)
        (some ⟨23, 2, 21⟩)) := by
    decide +kernel
  rw [failure?_eq_some_iff] at h
  exact ⟨h, compile_error_located _ _ _ _ (by decide) h⟩

end TemplateCompiler.Target
