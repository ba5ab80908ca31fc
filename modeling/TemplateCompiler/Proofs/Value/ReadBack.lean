import TemplateCompiler.Proofs.Value.Decoding
import TemplateCompiler.Proofs.Value.Quoted

/-! # Printed lists and maps can be read back

Does the text of a list or map say which value it is?  The grammar of these texts is that of
literals in another language, rule by rule (`Written`): three words, decimal integers, quoted texts,
lists in brackets and maps in braces.  Main statement: a list or map without doubles is written by
these rules, and the text is read as the value, the missing value being read as null
(`display_readBack`).  Two of them therefore have the same text only if they are the same in this
sense.

A value without doubles has a text of the grammar (`written_inner`).  That no other value has the
same text needs a reader: it takes just the texts of the grammar (`Printed.read?_eq_some_iff`), and
a reader gives one answer.  The quotation mark of a text is chosen from what the text holds, so a
value may have several texts in the grammar.  The reader takes all of them.
-/

namespace TemplateCompiler

open Text

namespace Printed

open Value (QuotedText textBody?)

/-! ## 1. The grammar -/

/-- An integer and its decimal digits, without leading zeros. -/
inductive IntText (n : Int64) : List Char → Prop
  | mk (negative : Bool) {ds : List Char} (hds : Config.WholeText ds)
      (hn : (if negative then -(Config.ofDigits ds : Int) else Config.ofDigits ds) = n.toInt) :
      IntText n ((if negative then ['-'] else []) ++ ds)

/-- What a text may stand for: a value, or all that stands between the brackets of a list or map
that is not empty. -/
inductive Part where
  | value (v : Value)
  | items (vs : List Value)
  | entries (es : List (List Char × Value))

/-- The texts of values, items and entries. -/
inductive Written : Part → List Char → Prop
  | null : Written (.value .null) "None".toList
  | yes : Written (.value (.bool true)) "True".toList
  | no : Written (.value (.bool false)) "False".toList
  | int {n : Int64} {cs : List Char} (h : IntText n cs) : Written (.value (.int n)) cs
  | text {s cs : List Char} (h : QuotedText s cs) : Written (.value (.text s)) cs
  | emptyList : Written (.value (.list [])) ['[', ']']
  | list {vs : List Value} {cs : List Char} (h : Written (.items vs) cs) :
      Written (.value (.list vs)) ('[' :: (cs ++ [']']))
  | emptyMap : Written (.value (.map [])) ['{', '}']
  | map {es : List (List Char × Value)} {cs : List Char} (h : Written (.entries es) cs) :
      Written (.value (.map es)) ('{' :: (cs ++ ['}']))
  | lastItem {v : Value} {cs : List Char} (hv : Written (.value v) cs) : Written (.items [v]) cs
  | item {v : Value} {vs : List Value} {cs ds : List Char} (hv : Written (.value v) cs)
      (hvs : Written (.items vs) ds) : Written (.items (v :: vs)) (cs ++ (", ".toList ++ ds))
  | lastEntry {key ks cs : List Char} {v : Value} (hkey : QuotedText key ks)
      (hv : Written (.value v) cs) : Written (.entries [(key, v)]) (ks ++ (": ".toList ++ cs))
  | entry {key ks cs ds : List Char} {v : Value} {es : List (List Char × Value)}
      (hkey : QuotedText key ks) (hv : Written (.value v) cs) (hes : Written (.entries es) ds) :
      Written (.entries ((key, v) :: es)) (ks ++ (": ".toList ++ (cs ++ (", ".toList ++ ds))))

/-! ## 2. The reader -/

/-- An integer, and what follows it. -/
def int? (cs : List Char) : Option (Int64 × List Char) := do
  let (negative, cs) := Config.signPart cs
  let (ds, rest) ← Config.wholePart? cs
  let n ← Value.fitInt? (if negative then -(Config.ofDigits ds : Int) else Config.ofDigits ds)
  return (n, rest)

mutual

/-- A value, and what follows it.  Every step into a value and along a list uses up one of the
allowed steps. -/
def value? : Nat → List Char → Option (Value × List Char)
  | 0, _ => none
  | _ + 1, [] => none
  | n + 1, c :: rest =>
    if c = '[' then
      if rest.head? = some ']' then some (.list [], rest.tail)
      else (items? n rest).map fun (vs, rest) => (.list vs, rest)
    else if c = '{' then
      if rest.head? = some '}' then some (.map [], rest.tail)
      else (entries? n rest).map fun (es, rest) => (.map es, rest)
    else if isQuote c then (textBody? c rest).map fun (s, rest) => (.text s, rest)
    else if c = 'N' then (Config.expect? "None" (c :: rest)).map (Value.null, ·)
    else if c = 'T' then (Config.expect? "True" (c :: rest)).map (Value.bool true, ·)
    else if c = 'F' then (Config.expect? "False" (c :: rest)).map (Value.bool false, ·)
    else (int? (c :: rest)).map fun (k, rest) => (.int k, rest)

/-- The items of a list, from the first one to after the closing bracket. -/
def items? : Nat → List Char → Option (List Value × List Char)
  | 0, _ => none
  | n + 1, cs => do
    let (v, rest) ← value? n cs
    if rest.head? = some ']' then return ([v], rest.tail)
    else
      let rest ← Config.expect? ", " rest
      let (vs, rest) ← items? n rest
      return (v :: vs, rest)

/-- The entries of a map, from the mark of the first key to after the closing brace. -/
def entries? : Nat → List Char → Option (List (List Char × Value) × List Char)
  | 0, _ => none
  | _ + 1, [] => none
  | n + 1, q :: rest =>
    if isQuote q then do
      let (key, rest) ← textBody? q rest
      let rest ← Config.expect? ": " rest
      let (v, rest) ← value? n rest
      if rest.head? = some '}' then return ([(key, v)], rest.tail)
      else
        let rest ← Config.expect? ", " rest
        let (es, rest) ← entries? n rest
        return ((key, v) :: es, rest)
    else none

end

/-- A text that is one value and nothing else. -/
def read? (cs : List Char) : Option Value :=
  match value? cs.length cs with
  | some (v, []) => some v
  | _ => none

/-! ## 3. Integers -/

theorem int?_of_intText {n : Int64} {cs rest : List Char} (h : IntText n cs)
    (hrest : DigitEnd rest) : int? (cs ++ rest) = some (n, rest) := by
  cases h with
  | mk negative hds hn =>
    rw [int?, Config.signPart_append negative hds]
    simp only [Config.wholePart?_append hds hrest, Option.bind_eq_bind, Option.bind_some, hn,
      Value.fitInt?_toInt]
    rfl

theorem toInt_of_fitInt? {k : Int} {n : Int64} (h : Value.fitInt? k = some n) : k = n.toInt := by
  unfold Value.fitInt? at h
  split at h
  · rename_i hfits
    cases h
    exact (Int64.toInt_ofInt_of_le hfits.1 (Int.lt_add_one_of_le hfits.2)).symm
  · cases h

theorem intText_of_int? {n : Int64} {cs rest : List Char} (h : int? cs = some (n, rest)) :
    ∃ used, cs = used ++ rest ∧ IntText n used := by
  unfold int? at h
  obtain ⟨⟨ds, after⟩, hwhole, h⟩ := Option.bind_eq_some_iff.1 h
  obtain ⟨k, hfits, h⟩ := Option.bind_eq_some_iff.1 h
  cases h
  obtain ⟨hcs, hds⟩ := Config.wholeText_of_wholePart? hwhole
  refine ⟨_, ?_, .mk (Config.signPart cs).1 hds (toInt_of_fitInt? hfits)⟩
  rw [List.append_assoc, ← hcs]
  exact Config.eq_of_signPart rfl

/-- An integer starts with a digit or a minus sign. -/
theorem IntText.head {n : Int64} {cs : List Char} (h : IntText n cs) :
    ∃ c more, cs = c :: more ∧ (c.isDigit = true ∨ c = '-') := by
  cases h with
  | mk negative hds hn =>
    cases negative with
    | true => exact ⟨'-', _, rfl, .inr rfl⟩
    | false =>
      obtain ⟨c, more, rfl, hc⟩ := hds.head
      exact ⟨c, more, rfl, .inl hc⟩

/-! ## 4. What is written is read -/

/-- What is written does not start with a closing bracket. -/
theorem Written.head {part : Part} {cs : List Char} (h : Written part cs) :
    ∃ c more, cs = c :: more ∧ isClosing c = false := by
  have hquoted {s cs : List Char} (h : QuotedText s cs) :
      ∃ c more, cs = c :: more ∧ isClosing c = false := by
    cases h with
    | mk hq _ => exact ⟨_, _, rfl, (classes_of_isQuote hq).2.2.1⟩
  induction h with
  | null | yes | no | emptyList | list | emptyMap | map => exact ⟨_, _, rfl, rfl⟩
  | int h =>
    obtain ⟨c, more, rfl, hc⟩ := h.head
    refine ⟨c, more, rfl, ?_⟩
    rcases hc with hc | rfl
    · exact (isPlain_iff.1 (isPlain_of_isIdentChar (isIdentChar_of_isDigit hc))).2.2
    · rfl
  | text h => exact hquoted h
  | lastItem _ ih => exact ih
  | item _ _ ih _ =>
    obtain ⟨c, more, rfl, hc⟩ := ih
    exact ⟨c, _, rfl, hc⟩
  | lastEntry hkey _ _ =>
    obtain ⟨c, more, rfl, hc⟩ := hquoted hkey
    exact ⟨c, _, rfl, hc⟩
  | entry hkey _ _ _ _ =>
    obtain ⟨c, more, rfl, hc⟩ := hquoted hkey
    exact ⟨c, _, rfl, hc⟩

/-- That a part is read from its text, whatever may follow it.  One step for each character is
enough. -/
def Part.ReadFrom (cs : List Char) : Part → Prop
  | .value v => ∀ n rest, cs.length ≤ n → DigitEnd rest → value? n (cs ++ rest) = some (v, rest)
  | .items vs => ∀ n rest, cs.length < n → items? n (cs ++ ']' :: rest) = some (vs, rest)
  | .entries es => ∀ n rest, cs.length < n → entries? n (cs ++ '}' :: rest) = some (es, rest)

section
variable {cs rest : List Char}

theorem value?_of_intText {k : Int64} (h : IntText k cs) (hrest : DigitEnd rest) (n : Nat) :
    value? (n + 1) (cs ++ rest) = some (.int k, rest) := by
  have hread := int?_of_intText h hrest
  obtain ⟨c, more, rfl, hc⟩ := h.head
  have hne : ∀ d ∈ ['[', '{', '\'', '"', 'N', 'T', 'F'], c ≠ d := by
    rintro d hd rfl
    simp only [List.mem_cons, List.not_mem_nil, or_false] at hd
    rcases hd with rfl | rfl | rfl | rfl | rfl | rfl | rfl <;> exact absurd hc (by decide)
  simp only [List.mem_cons, List.not_mem_nil, or_false, forall_eq_or_imp, forall_eq] at hne
  rw [List.cons_append] at hread ⊢
  simp [value?, hne, isQuote, hread]

theorem value?_of_quotedText {s : List Char} (h : QuotedText s cs) (n : Nat) (rest : List Char) :
    value? (n + 1) (cs ++ rest) = some (.text s, rest) := by
  cases h with
  | @mk q body hq hbody =>
    obtain ⟨-, hopening, -⟩ := classes_of_isQuote hq
    have hne {d : Char} (hd : isOpening d = true) : q ≠ d := by
      rintro rfl
      simp [hd] at hopening
    rw [List.cons_append, List.append_assoc, List.singleton_append, value?, if_neg (hne rfl),
      if_neg (hne rfl), if_pos hq, Value.textBody?_of_bodyText hq hbody]
    rfl

/-- A key, its colon and its value are read. -/
theorem entries?_of_value {key ks : List Char} {v : Value} (hkey : QuotedText key ks) {n : Nat}
    {after : List Char} (hv : value? n (cs ++ after) = some (v, after)) :
    entries? (n + 1) (ks ++ (": ".toList ++ (cs ++ after))) =
      if after.head? = some '}' then some ([(key, v)], after.tail)
      else (Config.expect? ", " after).bind fun rest =>
        (entries? n rest).map fun (es, rest) => ((key, v) :: es, rest) := by
  cases hkey with
  | mk hq hbody =>
    rw [List.cons_append, List.append_assoc, List.singleton_append, entries?, if_pos hq,
      Value.textBody?_of_bodyText hq hbody]
    simp only [Option.bind_eq_bind, Option.bind_some, Config.expect?_append, hv]
    split
    · rfl
    · cases Config.expect? ", " after with
      | none => rfl
      | some rest =>
        simp only [Option.bind_some]
        cases entries? n rest <;> rfl

end

/-- A closing bracket after one item or entry ends the list or map. -/
theorem items?_of_last {v : Value} {n : Nat} {cs rest : List Char}
    (hv : value? n cs = some (v, ']' :: rest)) : items? (n + 1) cs = some ([v], rest) := by
  rw [items?, hv]
  rfl

theorem items?_of_comma {v : Value} {vs : List Value} {n : Nat} {cs ds rest : List Char}
    (hv : value? n cs = some (v, ", ".toList ++ ds)) (hvs : items? n ds = some (vs, rest)) :
    items? (n + 1) cs = some (v :: vs, rest) := by
  rw [items?, hv]
  simp only [Option.bind_eq_bind, Option.bind_some, Config.expect?_append, hvs]
  rfl

section
variable {cs ds ks key : List Char} {v : Value}

/-- A list is read if its items are. -/
theorem Written.readFrom_list {vs : List Value} (h : Written (.items vs) cs)
    (hitems : (Part.items vs).ReadFrom cs) :
    (Part.value (.list vs)).ReadFrom ('[' :: (cs ++ [']'])) := by
  intro n rest hn _
  simp only [List.length_cons, List.length_append] at hn
  obtain ⟨n, rfl⟩ : ∃ m, n = m + 1 := Nat.exists_eq_add_of_le' (by omega)
  obtain ⟨c, more, rfl, hc⟩ := h.head
  have hne : c ≠ ']' := by
    rintro rfl
    cases hc
  rw [List.cons_append, List.append_assoc, List.singleton_append, value?, if_pos rfl,
    if_neg (by simpa using hne), hitems n rest (by omega)]
  rfl

/-- A map is read if its entries are. -/
theorem Written.readFrom_map {es : List (List Char × Value)} (h : Written (.entries es) cs)
    (hentries : (Part.entries es).ReadFrom cs) :
    (Part.value (.map es)).ReadFrom ('{' :: (cs ++ ['}'])) := by
  intro n rest hn _
  simp only [List.length_cons, List.length_append] at hn
  obtain ⟨n, rfl⟩ : ∃ m, n = m + 1 := Nat.exists_eq_add_of_le' (by omega)
  obtain ⟨c, more, rfl, hc⟩ := h.head
  have hne : c ≠ '}' := by
    rintro rfl
    cases hc
  rw [List.cons_append, List.append_assoc, List.singleton_append, value?, if_neg (by decide),
    if_pos rfl, if_neg (by simpa using hne), hentries n rest (by omega)]
  rfl

/-- Items are read if the first one and the others are. -/
theorem readFrom_item {vs : List Value} (hfirst : (Part.value v).ReadFrom cs)
    (hmore : (Part.items vs).ReadFrom ds) :
    (Part.items (v :: vs)).ReadFrom (cs ++ (", ".toList ++ ds)) := by
  intro n rest hn
  simp only [List.length_append, String.reduceToList, List.length_cons, List.length_nil] at hn
  obtain ⟨n, rfl⟩ : ∃ m, n = m + 1 := Nat.exists_eq_add_of_le' (by omega)
  rw [List.append_assoc, List.append_assoc]
  exact items?_of_comma (hfirst n _ (by omega) (digitEnd_cons rfl _)) (hmore n rest (by omega))

/-- Entries are read if the value of the first one and the others are. -/
theorem readFrom_entry {es : List (List Char × Value)} (hkey : QuotedText key ks)
    (hfirst : (Part.value v).ReadFrom cs) (hmore : (Part.entries es).ReadFrom ds) :
    (Part.entries ((key, v) :: es)).ReadFrom
      (ks ++ (": ".toList ++ (cs ++ (", ".toList ++ ds)))) := by
  intro n rest hn
  simp only [List.length_append, String.reduceToList, List.length_cons, List.length_nil] at hn
  obtain ⟨n, rfl⟩ : ∃ m, n = m + 1 := Nat.exists_eq_add_of_le' (by omega)
  have hvalue := hfirst n (", ".toList ++ (ds ++ '}' :: rest)) (by omega) (digitEnd_cons rfl _)
  simp only [List.append_assoc]
  rw [entries?_of_value hkey hvalue, if_neg (by simp), Config.expect?_append, Option.bind_some,
    hmore n rest (by omega)]
  rfl

end

/-- **Every part is read from its text.** -/
theorem readFrom_of_written {part : Part} {cs : List Char} (h : Written part cs) :
    part.ReadFrom cs := by
  have hsucc {m n : Nat} (h : m < n) : ∃ k, n = k + 1 := ⟨n - 1, by omega⟩
  induction h with
  | null | yes | no | emptyList | emptyMap =>
    intro n rest hn _
    obtain ⟨n, rfl⟩ := hsucc hn
    rfl
  | int h =>
    intro n rest hn hrest
    obtain ⟨c, more, rfl, -⟩ := h.head
    obtain ⟨n, rfl⟩ := hsucc hn
    exact value?_of_intText h hrest n
  | text h =>
    intro n rest hn _
    obtain ⟨c, more, rfl, -⟩ := (Written.text h).head
    obtain ⟨n, rfl⟩ := hsucc hn
    exact value?_of_quotedText h n rest
  | list h ih => exact h.readFrom_list ih
  | map h ih => exact h.readFrom_map ih
  | lastItem hv ih =>
    intro n rest hn
    obtain ⟨n, rfl⟩ := hsucc hn
    exact items?_of_last (ih n _ (Nat.le_of_lt_succ hn) (digitEnd_cons rfl rest))
  | item _ _ ihv ihvs => exact readFrom_item ihv ihvs
  | lastEntry hkey _ ih =>
    intro n rest hn
    obtain ⟨n, rfl⟩ := hsucc hn
    simp only [List.length_append] at hn
    have hvalue := ih n ('}' :: rest) (by omega) (digitEnd_cons rfl rest)
    rw [List.append_assoc, List.append_assoc, entries?_of_value hkey hvalue]
    rfl
  | entry hkey _ _ ihv ihes => exact readFrom_entry hkey ihv ihes

/-! ## 5. What is read is written -/

/-- What is read within `n` steps is written, up to what is left over. -/
structure ReadsWritten (n : Nat) : Prop where
  value {cs rest : List Char} {v : Value} (h : value? n cs = some (v, rest)) :
    ∃ used, cs = used ++ rest ∧ Written (.value v) used
  items {cs rest : List Char} {vs : List Value} (h : items? n cs = some (vs, rest)) :
    ∃ used, cs = used ++ ']' :: rest ∧ Written (.items vs) used
  entries {cs rest : List Char} {es : List (List Char × Value)}
    (h : entries? n cs = some (es, rest)) :
    ∃ used, cs = used ++ '}' :: rest ∧ Written (.entries es) used

section
variable {n : Nat} (ih : ReadsWritten n) {cs rest : List Char}

/-- A word is written if it is read. -/
theorem written_of_word {word : String} {v w : Value} (hword : Written (.value w) word.toList)
    (h : (Config.expect? word cs).map (w, ·) = some (v, rest)) :
    ∃ used, cs = used ++ rest ∧ Written (.value v) used := by
  obtain ⟨after, hafter, h⟩ := Option.map_eq_some_iff.1 h
  cases h
  exact ⟨_, Config.eq_of_expect? hafter, hword⟩

/-- A text is written if it is read. -/
theorem quotedText_of_textBody? {q : Char} (hq : isQuote q = true) {s : List Char}
    (h : textBody? q cs = some (s, rest)) : ∃ used, q :: cs = used ++ rest ∧ QuotedText s used := by
  obtain ⟨body, rfl, hbody⟩ := Value.bodyText_of_textBody? h
  exact ⟨q :: (body ++ [q]), by simp, .mk hq hbody⟩

include ih

theorem written_of_value? {v : Value} (h : value? (n + 1) cs = some (v, rest)) :
    ∃ used, cs = used ++ rest ∧ Written (.value v) used := by
  cases cs with
  | nil => cases h
  | cons c more =>
    rw [value?] at h
    split at h
    · rename_i hc
      subst hc
      split at h
      · rename_i hclose
        obtain ⟨after, rfl⟩ := List.head?_eq_some_iff.1 hclose
        cases h
        exact ⟨_, rfl, .emptyList⟩
      · obtain ⟨⟨vs, after⟩, hvs, h⟩ := Option.map_eq_some_iff.1 h
        cases h
        obtain ⟨used, rfl, hused⟩ := ih.items hvs
        exact ⟨'[' :: (used ++ [']']), by simp, .list hused⟩
    split at h
    · rename_i hc
      subst hc
      split at h
      · rename_i hclose
        obtain ⟨after, rfl⟩ := List.head?_eq_some_iff.1 hclose
        cases h
        exact ⟨_, rfl, .emptyMap⟩
      · obtain ⟨⟨es, after⟩, hes, h⟩ := Option.map_eq_some_iff.1 h
        cases h
        obtain ⟨used, rfl, hused⟩ := ih.entries hes
        exact ⟨'{' :: (used ++ ['}']), by simp, .map hused⟩
    split at h
    · rename_i hquote
      obtain ⟨⟨s, after⟩, hs, h⟩ := Option.map_eq_some_iff.1 h
      cases h
      obtain ⟨used, hcs, hused⟩ := quotedText_of_textBody? hquote hs
      exact ⟨used, hcs, .text hused⟩
    split at h
    · exact written_of_word .null h
    split at h
    · exact written_of_word .yes h
    split at h
    · exact written_of_word .no h
    · obtain ⟨⟨k, after⟩, hk, h⟩ := Option.map_eq_some_iff.1 h
      cases h
      obtain ⟨used, hcs, hused⟩ := intText_of_int? hk
      exact ⟨used, hcs, .int hused⟩

theorem written_of_items? {vs : List Value} (h : items? (n + 1) cs = some (vs, rest)) :
    ∃ used, cs = used ++ ']' :: rest ∧ Written (.items vs) used := by
  rw [items?] at h
  obtain ⟨⟨v, after⟩, hv, h⟩ := Option.bind_eq_some_iff.1 h
  obtain ⟨used, hcs, hused⟩ := ih.value hv
  rw [hcs]
  dsimp only at h
  split at h
  · rename_i hclose
    obtain ⟨tail, rfl⟩ := List.head?_eq_some_iff.1 hclose
    cases h
    exact ⟨used, rfl, .lastItem hused⟩
  · obtain ⟨next, hcomma, h⟩ := Option.bind_eq_some_iff.1 h
    obtain ⟨⟨ws, tail⟩, hws, h⟩ := Option.bind_eq_some_iff.1 h
    cases h
    obtain ⟨others, rfl, hothers⟩ := ih.items hws
    refine ⟨used ++ (", ".toList ++ others), ?_, .item hused hothers⟩
    rw [Config.eq_of_expect? hcomma]
    simp only [List.append_assoc]

theorem written_of_entries? {es : List (List Char × Value)}
    (h : entries? (n + 1) cs = some (es, rest)) :
    ∃ used, cs = used ++ '}' :: rest ∧ Written (.entries es) used := by
  cases cs with
  | nil => cases h
  | cons q more =>
    rw [entries?] at h
    split at h
    case isFalse => cases h
    case isTrue hquote =>
      obtain ⟨⟨key, afterKey⟩, hkey, h⟩ := Option.bind_eq_some_iff.1 h
      obtain ⟨afterColon, hcolon, h⟩ := Option.bind_eq_some_iff.1 h
      obtain ⟨⟨v, after⟩, hv, h⟩ := Option.bind_eq_some_iff.1 h
      obtain ⟨keyText, hmore, hkeyText⟩ := quotedText_of_textBody? hquote hkey
      obtain ⟨used, hcs, hused⟩ := ih.value hv
      rw [hmore, Config.eq_of_expect? hcolon, hcs]
      dsimp only at h
      split at h
      · rename_i hclose
        obtain ⟨tail, rfl⟩ := List.head?_eq_some_iff.1 hclose
        cases h
        exact ⟨keyText ++ (": ".toList ++ used), by simp only [List.append_assoc, List.tail_cons],
          .lastEntry hkeyText hused⟩
      · obtain ⟨next, hcomma, h⟩ := Option.bind_eq_some_iff.1 h
        obtain ⟨⟨fs, tail⟩, hfs, h⟩ := Option.bind_eq_some_iff.1 h
        cases h
        obtain ⟨others, rfl, hothers⟩ := ih.entries hfs
        refine ⟨keyText ++ (": ".toList ++ (used ++ (", ".toList ++ others))), ?_,
          .entry hkeyText hused hothers⟩
        rw [Config.eq_of_expect? hcomma]
        simp only [List.append_assoc]

end

theorem readsWritten (n : Nat) : ReadsWritten n := by
  induction n with
  | zero => exact ⟨(by cases ·), (by cases ·), (by cases ·)⟩
  | succ n ih => exact ⟨written_of_value? ih, written_of_items? ih, written_of_entries? ih⟩

/-- **The reader takes just the texts of the grammar.** -/
theorem read?_eq_some_iff {cs : List Char} {v : Value} :
    read? cs = some v ↔ Written (.value v) cs := by
  constructor
  · intro h
    unfold read? at h
    split at h
    · rename_i w hw
      cases h
      obtain ⟨used, rfl, hused⟩ := (readsWritten _).value hw
      rwa [List.append_nil]
    · cases h
  · intro h
    have hread := readFrom_of_written h cs.length [] (Nat.le_refl _) digitEnd_nil
    rw [List.append_nil] at hread
    rw [read?, hread]

end Printed

namespace Value

open Printed

/-! ## 6. Printed values -/

theorem intText_written (n : Int64) : IntText n (intText n) := by
  rw [intText_eq]
  exact .mk _ (Config.wholeText_toDigits _) (ofDigits_toDigits n)

-- The induction is over values, items and entries at once.
mutual

/-- **A value without doubles is written by the rules**, the missing value like null. -/
theorem written_inner (v : Value) (hv : v.isFloatFree = true) :
    Written (.value v.defined) v.inner := by
  match v with
  | .undefined => exact .null
  | .null => exact .null
  | .bool true => exact .yes
  | .bool false => exact .no
  | .int n => exact .int (intText_written n)
  | .float x => cases hv
  | .text s => exact .text (quotedText_quoted s)
  | .list items =>
    by_cases hne : items = []
    · subst hne
      exact .emptyList
    · exact .list (written_innerItems items hne hv)
  | .map entries =>
    by_cases hne : entries = []
    · subst hne
      exact .emptyMap
    · exact .map (written_innerEntries entries hne hv)

theorem written_innerItems (items : List Value) (hne : items ≠ [])
    (hv : itemsFloatFree items = true) :
    Written (.items (definedItems items)) (innerItems items) := by
  match items with
  | [] => exact absurd rfl hne
  | [v] =>
    rw [itemsFloatFree, Bool.and_eq_true] at hv
    exact .lastItem (written_inner v hv.1)
  | v :: w :: rest =>
    rw [itemsFloatFree, Bool.and_eq_true] at hv
    have hmore := written_innerItems (w :: rest) (by simp) hv.2
    rw [innerItems, List.append_assoc]
    · exact .item (written_inner v hv.1) hmore
    · simp

theorem written_innerEntries (entries : List (List Char × Value)) (hne : entries ≠ [])
    (hv : entriesFloatFree entries = true) :
    Written (.entries (definedEntries entries)) (innerEntries entries) := by
  match entries with
  | [] => exact absurd rfl hne
  | [(key, v)] =>
    rw [entriesFloatFree, Bool.and_eq_true] at hv
    rw [innerEntries, List.append_assoc]
    exact .lastEntry (quotedText_quoted key) (written_inner v hv.1)
  | (key, v) :: next :: rest =>
    rw [entriesFloatFree, Bool.and_eq_true] at hv
    have hmore := written_innerEntries (next :: rest) (by simp) hv.2
    simp only [innerEntries, List.append_assoc]
    exact .entry (quotedText_quoted key) (written_inner v hv.1) hmore

end

mutual

/-- The missing value is written like null. -/
theorem inner_defined (v : Value) : v.defined.inner = v.inner := by
  match v with
  | .undefined | .null | .bool _ | .int _ | .float _ | .text _ => rfl
  | .list items => rw [defined, inner, inner, innerItems_definedItems items]
  | .map entries => rw [defined, inner, inner, innerEntries_definedEntries entries]

theorem innerItems_definedItems (items : List Value) :
    innerItems (definedItems items) = innerItems items := by
  match items with
  | [] => rfl
  | [v] => exact inner_defined v
  | v :: w :: rest =>
    have hmore := innerItems_definedItems (w :: rest)
    simp only [definedItems, innerItems, inner_defined v] at hmore ⊢
    rw [hmore]

theorem innerEntries_definedEntries (entries : List (List Char × Value)) :
    innerEntries (definedEntries entries) = innerEntries entries := by
  match entries with
  | [] => rfl
  | [(key, v)] => simp only [definedEntries, innerEntries, inner_defined v]
  | (key, v) :: (key', w) :: rest =>
    have hmore := innerEntries_definedEntries ((key', w) :: rest)
    simp only [definedEntries, innerEntries, inner_defined v] at hmore ⊢
    rw [hmore]

end

/-- Whether a value is a list or a map. -/
def isContainer : Value → Bool
  | .list _ | .map _ => true
  | _ => false

/-- A list or map is written alone as it is inside another one. -/
theorem display_eq_inner {v : Value} (hv : v.isContainer = true) : v.display = v.inner := by
  cases v with
  | list | map => rfl
  | undefined | null | bool | int | float | text => cases hv

/-- **The text of a list or map can be read back.**  Without doubles it is a text of the grammar, it
is the text of no other value of the grammar, and it is read as the value, with null for every
missing value.  Two of them have the same text if and only if they are the same in this sense. -/
theorem display_readBack (v w : Value) (hv : v.isContainer = true) (hw : w.isContainer = true)
    (hvFree : v.isFloatFree = true) (hwFree : w.isFloatFree = true) :
    (Written (.value v.defined) v.display ∧
      (∀ other, Written (.value other) v.display → other = v.defined) ∧
      read? v.display = some v.defined) ∧
    (v.display = w.display ↔ v.defined = w.defined) := by
  rw [display_eq_inner hv, display_eq_inner hw]
  have hread := read?_eq_some_iff.2 (written_inner v hvFree)
  constructor
  · refine ⟨written_inner v hvFree, ?_, hread⟩
    intro other hother
    have hboth := (read?_eq_some_iff.2 hother).symm.trans hread
    injection hboth
  constructor
  · intro h
    rw [h, read?_eq_some_iff.2 (written_inner w hwFree)] at hread
    injection hread with hread
    exact hread.symm
  · intro h
    rw [← inner_defined v, ← inner_defined w, h]

/-- A map of texts with marks of both kinds, separators, brackets and backslashes; null or the
missing value stands for `gap`. -/
def markedValue (gap : Value) : Value :=
  .map [("it's".toList, .list [.text "\\', '".toList, gap, .text "\"]'".toList]),
    ("\": \\".toList, .map [([], .int (-20)), ([], gap)]), ([], .list [])]

/-- The theorem at two values that differ only in what is missing. -/
theorem display_readBack_marked :
    (Written (.value (markedValue .null)) (markedValue .undefined).display ∧
      (∀ other, Written (.value other) (markedValue .undefined).display →
        other = markedValue .null) ∧
      read? (markedValue .undefined).display = some (markedValue .null)) ∧
    (markedValue .undefined).display = (markedValue .null).display := by
  obtain ⟨hread, hsame⟩ :=
    display_readBack (markedValue .undefined) (markedValue .null) rfl rfl rfl rfl
  exact ⟨hread, hsame.2 rfl⟩

end Value

end TemplateCompiler
