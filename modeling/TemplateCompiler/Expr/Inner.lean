import TemplateCompiler.Expr.Bounds

/-! # Inner texts are shorter

Reading an expression asks for the expressions inside it.  Every text that is asked for is
shorter than the text that is read, because a bracket, a word or a keyword has been taken off.
So it does not matter what a reader of inner expressions does with texts as long as the whole
(`readWith_congr`), and the guard in `Expr.read` can be left out: `Expr.read_eq` is the equation
of the reader.

Two readers are compared that agree on texts below a bound (`AgreeBelow`).  There is one lemma for
each function that is given a reader: with the two of them it gives the same, if they agree below
the length of the text that it reads.  The lengths are those of `Expr.Bounds`.  Functions that take
no reader, such as those for literals, names and filters, need nothing here.
-/

namespace TemplateCompiler

namespace Reading

open Text

/-! ## 1. Operands -/

/-- Two readers that agree on the texts shorter than a bound. -/
def AgreeBelow (bound : Nat) (f g : Reader) : Prop := ∀ t : List Char, t.length < bound → f t = g t

/-- A smaller bound asks for less. -/
theorem AgreeBelow.mono {m n : Nat} {f g : Reader} (h : AgreeBelow n f g) (hmn : m ≤ n) :
    AgreeBelow m f g :=
  fun t ht => h t (Nat.lt_of_lt_of_le ht hmn)

/-- Between parentheses there is a shorter text, since they have been taken off. -/
theorem primary_congr {f g : Reader} {cs : List Char} (source : List Char)
    (h : AgreeBelow cs.length f g) : primary f source cs = primary g source cs := by
  cases cs with
  | nil => rfl
  | cons c rest =>
    simp only [primary]
    split
    · rfl
    split
    · rfl
    split
    · split
      · rfl
      · rename_i inner after hclose
        have hl := length_closeFrom_lt hclose
        rw [h inner (by simp only [List.length_cons]; omega)]
    · rfl

/-- Every subscript is shorter than the text that it stands in, and so is what is left behind it. -/
theorem postfixes_congr {f g : Reader} {cs : List Char} (source : List Char) (subject : Expr)
    (h : AgreeBelow cs.length f g) :
    postfixes f source subject cs = postfixes g source subject cs := by
  induction hn : cs.length using Nat.strongRecOn generalizing subject cs with
  | _ n ih =>
    subst hn
    cases cs with
    | nil => rw [postfixes_nil, postfixes_nil]
    | cons c rest =>
      rw [postfixes_cons, postfixes_cons]
      split
      · split
        · rfl
        · rename_i e after hattr
          have hl := length_attributeAfter_le hattr
          have hlt : after.length < (c :: rest).length := by simp only [List.length_cons]; omega
          exact ih _ hlt e (h.mono (Nat.le_of_lt hlt)) rfl
      · split
        · split
          · rfl
          · rename_i inner after hclose
            have hl := length_closeFrom_lt hclose
            have ht := length_trim_le inner
            have hlt : after.length < (c :: rest).length := by simp only [List.length_cons]; omega
            have hkey : f (trim inner) = g (trim inner) :=
              h _ (by simp only [List.length_cons]; omega)
            have hmore (key : Expr) := ih _ hlt (.item subject key) (h.mono (Nat.le_of_lt hlt)) rfl
            simp only [hkey, hmore]
        · rfl

/-! ## 2. Whole expressions -/

/-- What comes before the first literal, name or bracket is passed over without the reader. -/
theorem operand_congr {f g : Reader} {cs : List Char} (source : List Char)
    (h : AgreeBelow cs.length f g) : operand f source cs = operand g source cs := by
  have hs := length_signs_le cs
  unfold operand
  dsimp only
  rw [primary_congr source (h.mono hs)]
  cases hp : primary g source (signs cs).2 with
  | error => rfl
  | ok r =>
    have hl := length_primary_lt hp
    simp only [bind, Except.bind]
    rw [postfixes_congr source r.1 (h.mono (by omega))]

/-- Each operand of a chain is read from what the operands before it left. -/
theorem chain_congr {f g : Reader} {cs : List Char} (source : List Char) (allowed : Nat)
    (before : Option (Expr × BinOp)) (compared : Bool) (h : AgreeBelow cs.length f g) :
    chain f source allowed before compared cs = chain g source allowed before compared cs := by
  induction allowed generalizing before compared cs with
  | zero => rfl
  | succ allowed ih =>
    unfold chain
    rw [operand_congr source h]
    cases ho : operand g source cs with
    | error => rfl
    | ok r =>
      obtain ⟨e, rest⟩ := r
      have h1 := length_operand_lt ho
      simp only [bind, Except.bind]
      cases rest with
      | nil => rfl
      | cons c rest =>
        simp only
        cases hop : blame source (operator c rest) with
        | error => rfl
        | ok q =>
          have h2 := length_operator_le (eq_ok_of_blame hop)
          simp only [List.length_cons] at h1
          simp only [ih _ _ (h.mono (show q.2.length ≤ cs.length by omega))]

theorem part_congr {f g : Reader} {cs : List Char} (source : List Char) (h : f cs = g cs) :
    part f source cs = part g source cs := by
  rw [part, part, h]

/-- The reader is asked for the parts between the words, and for nothing else. -/
theorem joinParts_congr {f g : Reader} {first : List Char} {rest : List (List Char)}
    (source : List Char) (join : Expr → Expr → Expr) (h : ∀ p ∈ first :: rest, f p = g p) :
    joinParts f source join first rest = joinParts g source join first rest := by
  unfold joinParts
  rw [part_congr source (h first (by simp))]
  congr 1
  funext e
  have hrest : ∀ p ∈ rest, part f source p = part g source p := fun p hp =>
    part_congr source (h p (List.mem_cons_of_mem _ hp))
  clear h
  induction rest generalizing e with
  | nil => rfl
  | cons p rest ih =>
    simp only [List.foldlM_cons, hrest p (by simp)]
    congr 1
    funext acc
    exact ih acc fun q hq => hrest q (List.mem_cons_of_mem _ hq)

/-- The text behind a keyword is shorter by the keyword at least. -/
theorem length_afterKeyword?_lt {keyword cs rest : List Char} (hk : keyword ≠ [])
    (h : afterKeyword? keyword cs = some rest) : rest.length < cs.length := by
  have hpos : 0 < keyword.length := List.length_pos_iff.2 hk
  unfold afterKeyword? at h
  dsimp only at h
  split at h
  · rename_i hp
    have hle := (List.isPrefixOf_iff_prefix.1 hp).length_le
    have hl := length_trim_le (cs.drop keyword.length)
    rw [List.length_drop] at hl
    split at h
    · cases h
      omega
    · cases h
  · cases h

/-- What stands before `in` is not longer without its `not`. -/
theorem length_memberItem_le (before : List Char) :
    (memberItem before).1.length ≤ before.length := by
  have hl := length_trimEnd_le before
  unfold memberItem
  dsimp only
  split
  · have hm := length_trimEnd_le ((trimEnd before).take ((trimEnd before).length - 3))
    rw [List.length_take] at hm
    dsimp only
    omega
  · exact hl

/-- Both sides of `in` are shorter than the whole, by the word. -/
theorem membership_congr {f g : Reader} {before after : List Char} (source : List Char)
    {bound : Nat} (h : AgreeBelow bound f g) (hb : before.length < bound)
    (ha : after.length < bound) :
    membership f source before after = membership g source before after := by
  have hi := length_memberItem_le before
  have ht := length_trim_le after
  unfold membership
  dsimp only
  rw [h (trim after) (by omega), h (memberItem before).1 (by omega)]

theorem test_congr {f g : Reader} {subject : List Char} (source name : List Char)
    (h : f subject = g subject) : test f source subject name = test g source subject name := by
  rw [test, test, h]

/-- Whichever word an expression is cut at, the texts between are shorter; and a chain asks for
inner texts only. -/
theorem boolean_congr {f g : Reader} {source : List Char} (h : AgreeBelow source.length f g) :
    boolean f source = boolean g source := by
  unfold boolean
  split
  · rename_i first second rest hs
    exact joinParts_congr source .or fun p hp =>
      h p (length_lt_of_mem_splitWord (by decide) hs hp)
  split
  · rename_i first second rest hs
    exact joinParts_congr source .and fun p hp =>
      h p (length_lt_of_mem_splitWord (by decide) hs hp)
  split
  · rename_i rest hk
    rw [h rest (length_afterKeyword?_lt (by decide) hk)]
  split
  · rename_i before after hcut
    have hl := length_cutWord hcut
    have hin : "in".toList.length = 2 := by decide
    exact membership_congr source h (by omega) (by omega)
  · exact chain_congr source _ none false h

/-- What a reader does with texts as long as the whole does not matter. -/
theorem readWith_congr {f g : Reader} {expr : List Char} (h : AgreeBelow expr.length f g) :
    readWith f expr = readWith g expr := by
  have ht := length_trim_le expr
  unfold readWith
  dsimp only
  split
  · rfl
  split
  · rename_i subject name hcut
    split at hcut
    · cases hcut
    · have hl := length_cutWord hcut
      have his : "is".toList.length = 2 := by decide
      have hs := length_trim_le subject
      exact test_congr _ _ (h _ (by omega))
  · exact boolean_congr (h.mono ht)

end Reading

/-! ## 3. The equation of the reader -/

/-- An expression is read with the reader itself reading what is inside. -/
theorem Expr.read_eq (expr : List Char) : Expr.read expr = Reading.readWith Expr.read expr := by
  rw [Expr.read]
  refine Reading.readWith_congr fun t ht => ?_
  rw [if_pos ht]

end TemplateCompiler
