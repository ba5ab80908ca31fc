import TemplateCompiler.Expr.Read

/-! # What is left to read

Each function that reads a piece of an expression leaves a rest.  The rest is never longer than
the text, and an operand leaves a shorter one, because it has at least one character.  The parts
of a text between the occurrences of a word are shorter than the text.
-/

namespace TemplateCompiler

/-! ## 1. Trimming and cutting -/

namespace Text

theorem length_trimStart_le (cs : List Char) : (trimStart cs).length ≤ cs.length :=
  (List.dropWhile_sublist _).length_le

theorem length_trimEnd_le (cs : List Char) : (trimEnd cs).length ≤ cs.length := by
  have h : (cs.reverse.dropWhile isBlank).length ≤ cs.reverse.length :=
    (List.dropWhile_sublist _).length_le
  simpa [trimEnd] using h

theorem length_trim_le (cs : List Char) : (trim cs).length ≤ cs.length :=
  Nat.le_trans (length_trimEnd_le _) (length_trimStart_le _)

/-- A cut takes the word out. -/
theorem length_cutWord {word cs before after : List Char}
    (h : cutWord word cs = some (before, after)) :
    cs.length = before.length + word.length + after.length := by
  simpa [Nat.add_assoc] using congrArg List.length (Scan.eq_of_cutWord h)

/-- No part of a text is longer than the text. -/
theorem length_le_of_mem_splitWord {word cs p : List Char} (h : p ∈ splitWord word cs) :
    p.length ≤ cs.length := by
  fun_induction splitWord word cs with
  | case1 cs _ => simp_all
  | case2 cs before after hcut ih =>
    have hl := length_cutWord hcut
    rcases List.mem_cons.1 h with rfl | hp
    · omega
    · have := ih hp
      omega

/-- If a text has several parts, each is shorter than the text. -/
theorem length_lt_of_mem_splitWord {word cs first second p : List Char}
    {rest : List (List Char)} (hword : word ≠ [])
    (hs : splitWord word cs = first :: second :: rest) (h : p ∈ first :: second :: rest) :
    p.length < cs.length := by
  have hpos : 0 < word.length := List.length_pos_iff.2 hword
  rw [← hs] at h
  rw [splitWord_eq] at hs h
  cases hcut : cutWord word cs with
  | none => simp [hcut] at hs
  | some cut =>
    obtain ⟨before, after⟩ := cut
    have hl := length_cutWord hcut
    simp only [hcut] at h
    rcases List.mem_cons.1 h with rfl | hp
    · omega
    · have := length_le_of_mem_splitWord hp
      omega

end Text

namespace Reading

open Text

/-! ## 2. Equations -/

theorem postfixes_nil (self : Reader) (source : List Char) (subject : Expr) :
    postfixes self source subject [] = .ok (subject, []) := by
  rw [postfixes]

theorem postfixes_cons (self : Reader) (source : List Char) (subject : Expr) (c : Char)
    (rest : List Char) :
    postfixes self source subject (c :: rest) =
      if c = '.' then
        match attributeAfter subject rest with
        | .error fault => blame source (.error fault)
        | .ok (e, after) => postfixes self source e after
      else if c = '[' then
        match matchingClose rest with
        | none => blame source (.error .unbalancedBracket)
        | some (inner, after) =>
          if (trim inner).isEmpty then blame source (.error .emptySubscript)
          else if hasChar ':' (trim inner) then blame source (.error .slice)
          else do
            let key ← self (trim inner)
            postfixes self source (.item subject key) after
      else if c = '(' then blame source (.error .callOfValue)
      else .ok (subject, c :: rest) := by
  rw [postfixes]
  split
  · split <;> rename_i h <;> rw [h]
  · split
    · split <;> rename_i h <;> rw [h]
    · rfl

theorem filters_eq (source : List Char) (operand : Expr) (cs : List Char) :
    filters source operand cs =
      match trimStart cs with
      | [] => .ok (operand, [])
      | c :: rest =>
        if c = '|' then
          match oneFilter operand rest with
          | .error fault => blame source (.error fault)
          | .ok (e, after) => filters source e after
        else .ok (operand, c :: rest) := by
  rw [filters]
  split <;> rename_i ht <;> rw [ht]
  dsimp only
  split
  · split <;> rename_i h <;> rw [h]
  · rfl

/-! ## 3. Rests are shorter -/

theorem length_stringBody?_lt {quote : Char} {cs value rest : List Char}
    (h : stringBody? quote cs = some (value, rest)) : rest.length < cs.length := by
  fun_induction stringBody? quote cs generalizing value with
  | case1 => cases h
  | case2 => cases h
  | case3 d cs ih =>
    obtain ⟨⟨v, r⟩, hr, he⟩ := Option.map_eq_some_iff.1 h
    cases he
    have := ih hr
    simp only [List.length_cons]
    omega
  | case4 cs => cases h; simp
  | case5 c cs _ _ ih =>
    obtain ⟨⟨v, r⟩, hr, he⟩ := Option.map_eq_some_iff.1 h
    cases he
    have := ih hr
    simp only [List.length_cons]
    omega

theorem length_fraction?_le {cs part rest : List Char} (h : fraction? cs = some (part, rest)) :
    rest.length ≤ cs.length := by
  unfold fraction? at h
  split at h
  · rename_i d cs
    split at h
    · cases h
      have hl : ((d :: cs).dropWhile isDigitOrUnderscore).length ≤ (d :: cs).length :=
        (List.dropWhile_sublist _).length_le
      simp only [List.length_cons] at hl ⊢
      omega
    · cases h
  · cases h

theorem length_signPart_le (cs : List Char) : (signPart cs).2.length ≤ cs.length := by
  unfold signPart
  split
  · exact Nat.le_refl _
  · split <;> simp

theorem length_power?_le {cs mark power rest : List Char}
    (h : power? cs = some (mark, power, rest)) : rest.length ≤ cs.length := by
  unfold power? at h
  split at h
  · cases h
  · rename_i e cs
    have hs := length_signPart_le cs
    have hd : ((signPart cs).2.dropWhile Char.isDigit).length ≤ (signPart cs).2.length :=
      (List.dropWhile_sublist _).length_le
    dsimp only at h
    split at h
    · cases h
      simp only [List.length_cons]
      omega
    · cases h

/-- The first character of a word or number is part of it. -/
theorem length_dropWhile_lt {p : Char → Bool} {c : Char} (cs : List Char) (hc : p c = true) :
    ((c :: cs).dropWhile p).length < (c :: cs).length := by
  have hl : (cs.dropWhile p).length ≤ cs.length := (List.dropWhile_sublist _).length_le
  rw [List.dropWhile_cons_of_pos hc, List.length_cons]
  omega

/-- Pairing an answer with a rest does not change the rest. -/
theorem snd_eq_of_map_ok {r : Except Fault Expr} {e : Expr} {after rest : List Char}
    (h : r.map (·, after) = .ok (e, rest)) : after = rest := by
  cases r with
  | error => cases h
  | ok => cases h; rfl

theorem length_number_lt {c : Char} {cs rest : List Char} {e : Expr} (hc : c.isDigit = true)
    (h : number (c :: cs) = .ok (e, rest)) : rest.length < (c :: cs).length := by
  have hd : isDigitOrUnderscore c = true := by simp [isDigitOrUnderscore, hc]
  have hl := length_dropWhile_lt cs hd
  unfold number at h
  dsimp only at h
  split at h
  · rename_i part after hf
    have h1 := length_fraction?_le hf
    split at h
    · rename_i hp
      have h2 := length_power?_le hp
      rw [← snd_eq_of_map_ok h]
      omega
    · rw [← snd_eq_of_map_ok h]
      omega
  · split at h
    · rename_i hp
      have h2 := length_power?_le hp
      rw [← snd_eq_of_map_ok h]
      omega
    · rw [← snd_eq_of_map_ok h]
      exact hl

theorem length_word_lt {c : Char} {cs rest : List Char} {e : Expr} (hc : isIdentStart c = true)
    (h : word (c :: cs) = .ok (e, rest)) : rest.length < (c :: cs).length := by
  have hl := length_dropWhile_lt cs (isIdentChar_of_isIdentStart hc)
  unfold word at h
  simp only at h
  split at h
  · cases h; exact hl
  · split at h
    · cases h
    · split at h
      · cases h
      · cases h; exact hl

/-- Blaming a text does not change an answer. -/
theorem eq_ok_of_blame {source : List Char} {r : Except Fault α} {a : α}
    (h : blame source r = .ok a) : r = .ok a := by
  cases r with
  | error => cases h
  | ok b => cases h; rfl

theorem length_primary_lt {self : Reader} {source cs rest : List Char} {e : Expr}
    (h : primary self source cs = .ok (e, rest)) : rest.length < cs.length := by
  unfold primary at h
  split at h
  · cases h
  · rename_i c cs
    split at h
    · split at h
      · rename_i hs
        cases h
        have := length_stringBody?_lt hs
        simp only [List.length_cons]
        omega
      · cases h
    split at h
    · exact length_number_lt (by assumption) (eq_ok_of_blame h)
    split at h
    · split at h
      · cases h
      · rename_i inner after hclose
        have hl := length_closeFrom_lt hclose
        split at h
        · cases h
        split at h
        · cases h
        · cases hself : self inner with
          | error => simp [hself, bind, Except.bind] at h
          | ok v =>
            simp [hself, bind, Except.bind, pure, Except.pure] at h
            simp only [List.length_cons, ← h.2]
            omega
    split at h
    · cases h
    split at h
    · cases h
    split at h
    · exact length_word_lt (by assumption) (eq_ok_of_blame h)
    · cases h

theorem length_postfixes_le {self : Reader} {source cs rest : List Char} {subject e : Expr}
    (h : postfixes self source subject cs = .ok (e, rest)) : rest.length ≤ cs.length := by
  induction hn : cs.length using Nat.strongRecOn generalizing subject cs with
  | _ n ih =>
    subst hn
    cases cs with
    | nil =>
      rw [postfixes_nil] at h
      cases h
      exact Nat.le_refl _
    | cons c cs =>
      rw [postfixes_cons] at h
      split at h
      · split at h
        · cases h
        · rename_i hattr
          have hl := length_attributeAfter_le hattr
          have hm := ih _ (by simp only [List.length_cons]; omega) h rfl
          simp only [List.length_cons]
          omega
      split at h
      · split at h
        · cases h
        · rename_i inner after hclose
          have hl := length_closeFrom_lt hclose
          split at h
          · cases h
          split at h
          · cases h
          · cases hself : self (trim inner) with
            | error => simp [hself, bind, Except.bind] at h
            | ok key =>
              simp only [hself, bind, Except.bind] at h
              have hm := ih _ (by simp only [List.length_cons]; omega) h rfl
              simp only [List.length_cons]
              omega
      split at h
      · cases h
      · cases h
        exact Nat.le_refl _

theorem length_filters_le {source cs rest : List Char} {operand e : Expr}
    (h : filters source operand cs = .ok (e, rest)) : rest.length ≤ cs.length := by
  induction hn : cs.length using Nat.strongRecOn generalizing operand cs with
  | _ n ih =>
    subst hn
    have ht := length_trimStart_le cs
    rw [filters_eq] at h
    split at h
    · cases h; simp
    · rename_i c after hc
      rw [hc, List.length_cons] at ht
      split at h
      · split at h
        · cases h
        · rename_i hfilter
          have hl := length_oneFilter_le hfilter
          have hm := ih _ (by omega) h rfl
          omega
      · cases h
        exact ht

theorem length_signs_le (cs : List Char) : (signs cs).2.length ≤ cs.length := by
  induction cs with
  | nil => simp [signs]
  | cons c cs ih =>
    unfold signs
    split
    · simp only [List.length_cons]; omega
    · split
      · simp only [List.length_cons]; omega
      · simp

theorem length_operand_lt {self : Reader} {source cs rest : List Char} {e : Expr}
    (h : operand self source cs = .ok (e, rest)) : rest.length < cs.length := by
  have hs := length_signs_le cs
  unfold operand at h
  dsimp only at h
  cases hp : primary self source (signs cs).2 with
  | error => simp [hp, bind, Except.bind] at h
  | ok r =>
    obtain ⟨first, after⟩ := r
    have h1 := length_primary_lt hp
    simp only [hp, bind, Except.bind] at h
    cases hq : postfixes self source first after with
    | error => simp [hq] at h
    | ok r =>
      have h2 := length_postfixes_le hq
      simp only [hq] at h
      have h3 := length_filters_le h
      omega

theorem length_operator_le {c : Char} {cs rest : List Char} {op : BinOp}
    (h : operator c cs = .ok (op, rest)) : rest.length ≤ cs.length + 1 := by
  unfold operator at h
  split at h
  · cases h
  split at h
  · cases h
  split at h
  · cases h
    simp only [List.length_drop, List.length_cons]
    omega
  · cases h

/-- A chain that is allowed more operands than the text has characters never notices. -/
theorem chain_eq_of_lt {self : Reader} {cs : List Char} {m n : Nat} (source : List Char)
    (before : Option (Expr × BinOp)) (compared : Bool) (hm : cs.length < m) (hn : cs.length < n) :
    chain self source m before compared cs = chain self source n before compared cs := by
  induction m generalizing n before compared cs with
  | zero => omega
  | succ m ih =>
    cases n with
    | zero => omega
    | succ n =>
      unfold chain
      cases ho : operand self source cs with
      | error => rfl
      | ok r =>
        obtain ⟨e, rest⟩ := r
        have h1 := length_operand_lt ho
        simp only [bind, Except.bind]
        cases rest with
        | nil => rfl
        | cons c rest =>
          simp only
          cases hop : blame source (operator c rest) with
          | error => rfl
          | ok q =>
            have h2 := length_operator_le (eq_ok_of_blame hop)
            simp only [List.length_cons] at h1
            simp only [ih _ _ (show q.2.length < m by omega) (show q.2.length < n by omega)]

end Reading

end TemplateCompiler
