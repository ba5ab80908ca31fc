import TemplateCompiler.Template.Segment

/-! # What the pieces of a template are

`Decomposition` says, without an algorithm, how a template falls into runs and blocks: a run goes
on to the first place where a block opens, a block to the first closing delimiter after its opening
one and the dash of that, and a block without a closing delimiter ends it all.  There is exactly
one decomposition of each template, and it is the one that `segments` computes
(`decomposition_iff`).
-/

namespace TemplateCompiler.Template

/-! ## 1. Decompositions -/

/-- A block opens at the start of the text. -/
def Opens (cs : List Char) : Prop := ∃ (d : Delimiter) (rest : List Char), cs = d.opening ++ rest

/-- What stands between the opening delimiter, with its dash, and the closing one. -/
def Block.inside (b : Block) : List Char := b.body ++ dash b.trimsAfter

/-- A block that is cut at the first closing delimiter, and whose dashes are those at its ends.
One dash is not both: the opening delimiter takes it first. -/
structure Block.Exact (b : Block) : Prop where
  before : b.trimsBefore = false → b.inside.head? ≠ some '-'
  after : b.trimsAfter = false → b.body.getLast? ≠ some '-'
  closing : ∀ p q, b.inside ++ b.delimiter.closing = p ++ b.delimiter.closing ++ q → q = []

/-- The text after an opening delimiter, without the dash that belongs to the delimiter. -/
def afterDash (cs : List Char) : List Char := if opensWithDash cs then cs.tail else cs

/-- How a text falls into pieces, from left to right. -/
inductive Decomposition : List Char → List Segment → Ending → Prop
  | complete : Decomposition [] [] .complete
  /-- A block that is never closed ends the pieces. -/
  | unclosed {d : Delimiter} {rest : List Char}
      (h : ∀ p q, afterDash rest ≠ p ++ d.closing ++ q) :
      Decomposition (d.opening ++ rest) [] (.unclosed d rest)
  /-- A run ends where the first block opens, or where the text ends. -/
  | run {text rest : List Char} {pieces : List Segment} {ending : Ending} (hne : text ≠ [])
      (hfirst : ∀ p q, text = p ++ q → q ≠ [] → ¬Opens (q ++ rest))
      (hend : rest = [] ∨ Opens rest) (h : Decomposition rest pieces ending) :
      Decomposition (text ++ rest) (.run text :: pieces) ending
  | block {b : Block} {rest : List Char} {pieces : List Segment} {ending : Ending} (hb : b.Exact)
      (h : Decomposition rest pieces ending) :
      Decomposition (b.source ++ rest) (.block b :: pieces) ending

/-! ## 2. Opening delimiters -/

theorem Delimiter.ofMark?_mark (d : Delimiter) : Delimiter.ofMark? d.mark = some d := by
  cases d <;> rfl

theorem openedBlock?_opening (d : Delimiter) (rest : List Char) :
    openedBlock? (d.opening ++ rest) = some (d, rest) := by
  simp [openedBlock?, Delimiter.opening, Delimiter.ofMark?_mark]

theorem opens_iff (cs : List Char) : Opens cs ↔ (openedBlock? cs).isSome = true := by
  constructor
  · rintro ⟨d, rest, rfl⟩
    rw [openedBlock?_opening]
    rfl
  · intro h
    obtain ⟨⟨d, rest⟩, hd⟩ := Option.isSome_iff_exists.1 h
    exact ⟨d, rest, eq_of_openedBlock? hd⟩

/-! ## 3. Runs -/

/-- **A run is what comes before the first block.** -/
theorem splitRun_eq {text rest : List Char}
    (hfirst : ∀ p q, text = p ++ q → q ≠ [] → ¬Opens (q ++ rest)) (hend : rest = [] ∨ Opens rest) :
    splitRun (text ++ rest) = (text, rest) := by
  induction text with
  | nil =>
    rcases hend with rfl | hopen
    · rfl
    · cases rest with
      | nil => rfl
      | cons c rest =>
        rw [List.nil_append, splitRun, if_pos ((opens_iff _).1 hopen)]
  | cons c text ih =>
    have hnot : ¬(openedBlock? (c :: (text ++ rest))).isSome = true := by
      rw [← opens_iff]
      exact hfirst [] (c :: text) rfl (by simp)
    have hmore := ih fun p q h hq => hfirst (c :: p) q (by rw [h]; rfl) hq
    rw [List.cons_append, splitRun, if_neg hnot, hmore]

/-- What `splitRun` gives is a run and what comes after it. -/
theorem splitRun_spec (cs : List Char) :
    (∀ p q, (splitRun cs).1 = p ++ q → q ≠ [] → ¬Opens (q ++ (splitRun cs).2)) ∧
      ((splitRun cs).2 = [] ∨ Opens (splitRun cs).2) := by
  induction cs with
  | nil =>
    refine ⟨fun p q h hq => ?_, .inl rfl⟩
    simp [splitRun, hq] at h
  | cons c cs ih =>
    by_cases hopen : (openedBlock? (c :: cs)).isSome = true
    · rw [splitRun, if_pos hopen]
      refine ⟨fun p q h hq => ?_, .inr ((opens_iff _).2 hopen)⟩
      simp [hq] at h
    · rw [splitRun, if_neg hopen]
      refine ⟨fun p q h hq => ?_, ih.2⟩
      cases p with
      | nil =>
        -- the whole run: it starts where no block opens
        rw [List.nil_append] at h
        rw [← h, List.cons_append, splitRun_append, opens_iff]
        exact hopen
      | cons d p =>
        obtain ⟨-, hpq⟩ := List.cons.inj h
        exact ih.1 p q hpq hq

/-! ## 4. Closing delimiters -/

/-- The text before the first pair, if the pair comes first at its end. -/
theorem cutAt_eq {a b : Char} {inner after : List Char}
    (h : ∀ p q, inner ++ [a, b] = p ++ [a, b] ++ q → q = []) :
    cutAt a b (inner ++ a :: b :: after) = some (inner, after) := by
  induction inner with
  | nil => simp [cutAt]
  | cons c inner ih =>
    have hmore := ih fun p q heq => h (c :: p) q (by rw [List.cons_append, heq]; rfl)
    have hnot : ¬(c = a ∧ (inner ++ a :: b :: after).head? = some b) := by
      rintro ⟨rfl, hb⟩
      cases inner with
      | nil =>
        -- the two characters are the same, and the pair comes one place earlier
        obtain rfl : c = b := by simpa using hb
        exact absurd (h [] [c] rfl) (by simp)
      | cons d inner =>
        obtain rfl : d = b := by simpa using hb
        exact absurd (h [] (inner ++ [c, d]) rfl) (by simp)
    rw [List.cons_append, cutAt, if_neg hnot, hmore]
    rfl

/-- What `cutAt` cuts at is the first pair. -/
theorem first_of_cutAt {a b : Char} {cs inner after : List Char}
    (h : cutAt a b cs = some (inner, after)) :
    ∀ p q, inner ++ [a, b] = p ++ [a, b] ++ q → q = [] := by
  induction cs generalizing inner with
  | nil => cases h
  | cons c cs ih =>
    unfold cutAt at h
    split at h
    · cases h
      intro p q heq
      have hlen := congrArg List.length heq
      simp only [List.length_append, List.length_cons, List.length_nil] at hlen
      exact List.eq_nil_of_length_eq_zero (by omega)
    · rename_i hnot
      obtain ⟨⟨inner', after'⟩, hcut, heq⟩ := Option.map_eq_some_iff.1 h
      cases heq
      intro p q heq
      cases p with
      | nil =>
        rw [eq_of_cutAt hcut] at hnot
        refine absurd ?_ hnot
        cases inner' with
        | nil =>
          simp only [List.nil_append, List.cons_append, List.cons.injEq] at heq
          exact ⟨heq.1, by simp [heq.2.1]⟩
        | cons d inner' =>
          simp only [List.nil_append, List.cons_append, List.cons.injEq] at heq
          exact ⟨heq.1, by simp [heq.2.1]⟩
      | cons d p =>
        simp only [List.cons_append, List.cons.injEq] at heq
        exact ih hcut p q (by simpa using heq.2)

theorem cutAt_eq_none_iff {a b : Char} {cs : List Char} :
    cutAt a b cs = none ↔ ∀ p q, cs ≠ p ++ [a, b] ++ q := by
  constructor
  · intro h p q heq
    subst heq
    induction p with
    | nil => simp [cutAt] at h
    | cons c p ih =>
      simp only [List.cons_append] at h
      unfold cutAt at h
      split at h
      · cases h
      · exact ih (by simpa using h)
  · intro h
    cases hcut : cutAt a b cs with
    | none => rfl
    | some r =>
      obtain ⟨inner, after⟩ := r
      exact absurd (eq_of_cutAt hcut) (by simpa using h inner after)

/-! ## 5. Blocks -/

/-- The block as it is written, from after its opening delimiter. -/
theorem Block.source_eq (b : Block) :
    b.source = b.delimiter.opening ++ (dash b.trimsBefore ++ (b.inside ++ b.delimiter.closing)) := by
  simp [Block.source, Block.inside]

theorem Block.read?_def (d : Delimiter) (cs : List Char) :
    Block.read? d cs = (cutAt d.closeMark '}' (afterDash cs)).map fun (inner, after) =>
      ({ delimiter := d, trimsBefore := opensWithDash cs,
         trimsAfter := inner.getLast? == some '-',
         body := if inner.getLast? == some '-' then inner.dropLast else inner }, after) := rfl

theorem Delimiter.closeMark_ne (d : Delimiter) : d.closeMark ≠ '-' := by
  cases d <;> decide

/-- The dash of an exact block is found where it is. -/
theorem Block.Exact.afterDash {b : Block} (h : b.Exact) (after : List Char) :
    opensWithDash (dash b.trimsBefore ++ (b.inside ++ b.delimiter.closing) ++ after) =
        b.trimsBefore ∧
      afterDash (dash b.trimsBefore ++ (b.inside ++ b.delimiter.closing) ++ after) =
        b.inside ++ b.delimiter.closeMark :: '}' :: after := by
  cases hd : b.trimsBefore with
  | true => simp [opensWithDash, Template.afterDash, dash, Delimiter.closing]
  | false =>
    have hhead : opensWithDash (dash false ++ (b.inside ++ b.delimiter.closing) ++ after) =
        false := by
      have hbefore := h.before hd
      cases hin : b.inside with
      | nil => simp [opensWithDash, dash, Delimiter.closing, Delimiter.closeMark_ne]
      | cons c rest =>
        rw [hin] at hbefore
        simpa [opensWithDash, dash] using hbefore
    refine ⟨hhead, ?_⟩
    rw [Template.afterDash, hhead]
    simp [dash, Delimiter.closing]

/-- What is inside an exact block tells its body from its dash. -/
theorem Block.Exact.inside {b : Block} (h : b.Exact) :
    (b.inside.getLast? == some '-') = b.trimsAfter ∧
      (if b.trimsAfter then b.inside.dropLast else b.inside) = b.body := by
  cases hd : b.trimsAfter with
  | true => simp [Block.inside, hd, dash]
  | false =>
    have hafter := h.after hd
    simpa [Block.inside, hd, dash] using hafter

/-- **An exact block is read as it is.** -/
theorem Block.Exact.read? {b : Block} (h : b.Exact) (after : List Char) :
    Block.read? b.delimiter
        (dash b.trimsBefore ++ (b.inside ++ b.delimiter.closing) ++ after) = some (b, after) := by
  obtain ⟨hopens, hafter⟩ := h.afterDash after
  obtain ⟨hlast, hbody⟩ := h.inside
  rw [Block.read?_def, hopens, hafter, cutAt_eq h.closing]
  simp only [Option.map_some, hlast, hbody]

theorem head?_afterDash {cs : List Char} (h : opensWithDash cs = false) :
    (afterDash cs).head? ≠ some '-' := by
  rw [afterDash, h]
  simpa [opensWithDash] using h

/-- **A block that was read is exact.** -/
theorem Block.exact_of_read? {d : Delimiter} {cs after : List Char} {b : Block}
    (h : Block.read? d cs = some (b, after)) : b.Exact := by
  rw [Block.read?_def] at h
  obtain ⟨⟨inner, tl⟩, hcut, heq⟩ := Option.map_eq_some_iff.1 h
  cases heq
  -- the body and its dash are what was cut out
  have hinside : Block.inside
      { delimiter := d, trimsBefore := opensWithDash cs
        trimsAfter := inner.getLast? == some '-'
        body := if inner.getLast? == some '-' then inner.dropLast else inner } = inner := by
    cases hl : inner.getLast? == some '-' with
    | false => simp [Block.inside, dash]
    | true =>
      obtain ⟨init, rfl⟩ := List.getLast?_eq_some_iff.1 (by simpa using hl)
      simp [Block.inside, dash]
  refine ⟨fun hbefore => ?_, fun hafter => ?_, ?_⟩
  · rw [hinside]
    have hhead := head?_afterDash hbefore
    rw [eq_of_cutAt hcut] at hhead
    cases inner with
    | nil => simp
    | cons c inner => simpa using hhead
  · have hne : inner.getLast? ≠ some '-' := by simpa using hafter
    change (if inner.getLast? == some '-' then inner.dropLast else inner).getLast? ≠ some '-'
    rwa [if_neg (by simpa using hne)]
  · rw [hinside]
    exact first_of_cutAt hcut

/-! ## 6. The decomposition of a template -/

theorem segments_run {c : Char} {rest : List Char} (h : openedBlock? (c :: rest) = none) :
    segments (c :: rest) =
      (.run (splitRun (c :: rest)).1 :: (segments (splitRun (c :: rest)).2).1,
        (segments (splitRun (c :: rest)).2).2) := by
  rw [segments]
  split
  · rfl
  · rename_i hopen
    rw [h] at hopen
    cases hopen

theorem segments_unclosed {d : Delimiter} {inside : List Char}
    (h : Block.read? d inside = none) :
    segments (d.opening ++ inside) = ([], .unclosed d inside) := by
  have hopen := openedBlock?_opening d inside
  rw [Delimiter.opening, List.cons_append] at hopen ⊢
  rw [segments]
  split
  · rename_i hnone
    rw [hnone] at hopen
    cases hopen
  · rename_i hsome
    rw [hopen] at hsome
    cases hsome
    split
    · rfl
    · rename_i hread
      rw [h] at hread
      cases hread

theorem segments_block {d : Delimiter} {inside after : List Char} {b : Block}
    (h : Block.read? d inside = some (b, after)) :
    segments (d.opening ++ inside) = (.block b :: (segments after).1, (segments after).2) := by
  have hopen := openedBlock?_opening d inside
  rw [Delimiter.opening, List.cons_append] at hopen ⊢
  rw [segments]
  split
  · rename_i hnone
    rw [hnone] at hopen
    cases hopen
  · rename_i hsome
    rw [hopen] at hsome
    cases hsome
    split
    · rename_i hread
      rw [h] at hread
      cases hread
    · rename_i hread
      rw [h] at hread
      cases hread
      rfl

/-- Whatever is a decomposition is the one that `segments` gives. -/
theorem Decomposition.segments_eq {s : List Char} {pieces : List Segment} {ending : Ending}
    (h : Decomposition s pieces ending) : segments s = (pieces, ending) := by
  induction h with
  | complete => rw [segments]
  | @unclosed d rest hclosing =>
    refine segments_unclosed ?_
    rw [Block.read?_def, cutAt_eq_none_iff.2 hclosing]
    rfl
  | @run text rest pieces ending hne hfirst hend _ ih =>
    obtain ⟨c, more, rfl⟩ := List.exists_cons_of_ne_nil hne
    have hnone : openedBlock? (c :: (more ++ rest)) = none := by
      rw [← Option.not_isSome_iff_eq_none, ← opens_iff]
      exact hfirst [] (c :: more) rfl hne
    have hsplit := splitRun_eq hfirst hend
    rw [List.cons_append] at hsplit ⊢
    rw [segments_run hnone, hsplit, ih]
  | @block b rest pieces ending hb _ ih =>
    rw [Block.source_eq, List.append_assoc, segments_block (hb.read? rest), ih]

/-- What `segments` gives is a decomposition. -/
theorem decomposition_segments (s : List Char) :
    Decomposition s (segments s).1 (segments s).2 := by
  fun_induction segments s with
  | case1 => exact .complete
  | case2 c rest hopen more ending hmore ih =>
    rw [hmore] at ih
    obtain ⟨hfirst, hend⟩ := splitRun_spec (c :: rest)
    have hne : (splitRun (c :: rest)).1 ≠ [] := by
      simp [splitRun, hopen]
    have h := Decomposition.run hne hfirst hend ih
    rwa [splitRun_append] at h
  | case3 c rest d inside hopen hread =>
    rw [eq_of_openedBlock? hopen]
    rw [Block.read?_def, Option.map_eq_none_iff, cutAt_eq_none_iff] at hread
    exact .unclosed hread
  | case4 c rest d inside hopen b after hread more ending hmore ih =>
    rw [hmore] at ih
    rw [eq_of_openedBlock? hopen, Block.eq_of_read? hread]
    exact .block (Block.exact_of_read? hread) ih

/-- **A template has exactly one decomposition, and `segments` computes it.** -/
theorem decomposition_iff {s : List Char} {pieces : List Segment} {ending : Ending} :
    Decomposition s pieces ending ↔ segments s = (pieces, ending) := by
  constructor
  · exact Decomposition.segments_eq
  · intro h
    have hd := decomposition_segments s
    rwa [h] at hd

-- one dash belongs to the opening delimiter and not to the closing one as well
example : segments "a \x7b\x7b-\x7d\x7d b".toList =
    ([.run "a ".toList, .block ⟨.output, true, [], false⟩, .run " b".toList], .complete) := by
  decide +kernel

/-- The pieces and what follows them spell the template. -/
theorem Decomposition.spells {s : List Char} {pieces : List Segment} {ending : Ending}
    (h : Decomposition s pieces ending) :
    (pieces.map Segment.source).flatten ++ ending.source = s := by
  have hs := source_segments s
  rwa [h.segments_eq] at hs

end TemplateCompiler.Template
