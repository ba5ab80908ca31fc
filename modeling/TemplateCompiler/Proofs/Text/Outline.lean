import TemplateCompiler.Proofs.Text.Pairing
import TemplateCompiler.Text.Position

/-! # The outline and the bracket that closes

A text is scanned twice: once from its start, for what stands at top level, and once from inside a
bracket, for the bracket that closes it.  Literals, escapes and depths are followed by both.  Main
statement: the two agree on every text (`closingOffset?_eq_next`).  After an opening bracket the
outline shows nothing but the bracket that closes it, or nothing at all if none does.

The items of a scan are taken apart at a place of the text (`Scan.items_append`,
`Scan.exists_of_items_eq_append`).  From inside a bracket the two scanners stop at the same
characters (`Scan.shows_inside`), and one induction over the text carries this to the items that
come next (`Scan.items_of_closeFrom`).
-/

namespace TemplateCompiler.Text

/-! ## 1. The items of a scan -/

/-- The state of a scan after some more text. -/
def Scan.after (s : Scan) (cs : List Char) : Scan := cs.foldl Scan.next s

@[simp] theorem Scan.after_nil (s : Scan) : s.after [] = s := rfl

@[simp] theorem Scan.after_cons (s : Scan) (c : Char) (cs : List Char) :
    s.after (c :: cs) = (s.next c).after cs := rfl

@[simp] theorem Scan.after_append (s : Scan) (as bs : List Char) :
    s.after (as ++ bs) = (s.after as).after bs := List.foldl_append

/-- Plain characters leave the scan where it is. -/
theorem Scan.after_within_of_isPlain {cs : List Char} (h : ∀ c ∈ cs, isPlain c = true)
    (depth : Nat) : (Scan.within depth).after cs = Scan.within depth := by
  induction cs with
  | nil => rfl
  | cons c cs ih =>
    rw [after_cons, next_within_of_isPlain (h c (by simp)), ih fun d hd => h d (by simp [hd])]

theorem Scan.items_cons (s : Scan) (place : Nat) (c : Char) (cs : List Char) :
    s.items place (c :: cs) =
      (if s.shows c then [(place, c)] else []) ++ (s.next c).items (place + 1) cs := by
  rw [items]
  split <;> rfl

/-- The items of a joined text are those of its parts. -/
theorem Scan.items_append (s : Scan) (place : Nat) (as bs : List Char) :
    s.items place (as ++ bs) =
      s.items place as ++ (s.after as).items (place + as.length) bs := by
  induction as generalizing s place with
  | nil => rfl
  | cons c as ih =>
    rw [List.cons_append, items_cons, items_cons, ih, after_cons, List.append_assoc,
      List.length_cons, Nat.add_right_comm, Nat.add_assoc]

/-- Places are counted from where the scan starts. -/
theorem Scan.items_add (s : Scan) (k place : Nat) (cs : List Char) :
    s.items (k + place) cs = (s.items place cs).map fun item => (k + item.1, item.2) := by
  induction cs generalizing s place with
  | nil => rfl
  | cons c cs ih =>
    rw [items_cons, items_cons, List.map_append, ← ih, Nat.add_assoc]
    split <;> rfl

theorem Scan.lt_of_mem_items {s : Scan} {place : Nat} {cs : List Char} {item : Nat × Char}
    (h : item ∈ s.items place cs) : place ≤ item.1 ∧ item.1 < place + cs.length := by
  induction cs generalizing s place with
  | nil => cases h
  | cons c cs ih =>
    rw [items_cons, List.mem_append] at h
    rw [List.length_cons]
    rcases h with h | h
    · split at h
      · obtain rfl := List.mem_singleton.1 h
        dsimp only
        omega
      · cases h
    · have := ih h
      omega

/-- **An item stands for a character of the text**, and the items around it are those of the text
around this character. -/
theorem Scan.exists_of_items_eq_append {s : Scan} {place : Nat} {cs : List Char}
    {before after : List (Nat × Char)} {item : Nat × Char}
    (h : s.items place cs = before ++ item :: after) :
    ∃ pre post, cs = pre ++ item.2 :: post ∧ item.1 = place + pre.length ∧
      (s.after pre).shows item.2 = true ∧
      after = ((s.after pre).next item.2).items (item.1 + 1) post := by
  induction cs generalizing s place before with
  | nil => simp [items] at h
  | cons c cs ih =>
    rw [items_cons] at h
    have hlater {before' : List (Nat × Char)}
        (h : (s.next c).items (place + 1) cs = before' ++ item :: after) :
        ∃ pre post, c :: cs = pre ++ item.2 :: post ∧ item.1 = place + pre.length ∧
          (s.after pre).shows item.2 = true ∧
          after = ((s.after pre).next item.2).items (item.1 + 1) post := by
      obtain ⟨pre, post, hcs, hplace, hshows, hafter⟩ := ih h
      refine ⟨c :: pre, post, by rw [hcs]; rfl, ?_, hshows, hafter⟩
      rw [hplace, List.length_cons, Nat.add_assoc, Nat.add_comm 1]
    by_cases hshows : s.shows c = true
    · rw [if_pos hshows, List.singleton_append] at h
      cases before with
      | nil =>
        obtain ⟨rfl, rfl⟩ := List.cons.inj h
        exact ⟨[], cs, rfl, rfl, hshows, rfl⟩
      | cons first before => exact hlater (List.cons.inj h).2
    · rw [if_neg hshows] at h
      exact hlater h

/-! ## 2. From inside a bracket -/

/-- **From inside a bracket the outline shows only what the search for the closing bracket stops
at.** -/
theorem Scan.shows_inside (l : Literal) (depth : Nat) (c : Char) :
    ({ literal := l, depth := depth + 1 } : Scan).shows c =
      (l = .outside && isClosing c && l.depthAfter (depth + 1) c == 0) := by
  by_cases hl : l = .outside
  · by_cases hc : isClosing c = true
    · obtain ⟨-, hq, ho, -⟩ := classes_of_isClosing hc
      rw [Bool.eq_iff_iff]
      simp [shows, Literal.depthAfter, hl, hc, hq, ho]
    · simp [shows, hl, hc]
  · simp [shows, hl]

/-- A character that is not shown does not end the bracket. -/
theorem Literal.depthAfter_of_not_shows {l : Literal} {depth : Nat} {c : Char}
    (h : ({ literal := l, depth := depth + 1 } : Scan).shows c = false) :
    ∃ more, l.depthAfter (depth + 1) c = more + 1 := by
  refine Nat.exists_eq_succ_of_ne_zero fun hzero => ?_
  by_cases hclosing : l = .outside ∧ isClosing c = true
  · rw [Scan.shows_inside, hzero] at h
    simp [hclosing] at h
  · have hle := (depthAfter_of_not_closing hclosing (depth + 1) 0).2
    omega

/-- The bracket that closes is the next item. -/
theorem Scan.items_of_closeFrom {l : Literal} {depth : Nat} {cs inner after : List Char}
    (h : closeFrom l (depth + 1) cs = some (inner, after)) (place : Nat) :
    ∃ c, isClosing c = true ∧ cs = inner ++ c :: after ∧
      ({ literal := l, depth := depth + 1 } : Scan).items place cs =
        (place + inner.length, c) :: (Scan.within 0).items (place + inner.length + 1) after := by
  induction cs generalizing l depth inner place with
  | nil => cases h
  | cons c cs ih =>
    rw [closeFrom_cons, ← shows_inside] at h
    rw [items_cons]
    by_cases hshows : ({ literal := l, depth := depth + 1 } : Scan).shows c = true
    · rw [if_pos hshows] at h ⊢
      cases h
      rw [shows_inside, Bool.and_eq_true, Bool.and_eq_true, decide_eq_true_eq, beq_iff_eq] at hshows
      obtain ⟨⟨rfl, hc⟩, hzero⟩ := hshows
      obtain ⟨-, hq, -, -⟩ := classes_of_isClosing hc
      have hnext : ({ literal := .outside, depth := depth + 1 } : Scan).next c = Scan.within 0 := by
        rw [next, hzero, Literal.next, if_neg (by simp [hq])]
        rfl
      rw [hnext]
      exact ⟨c, hc, rfl, rfl⟩
    · rw [if_neg hshows] at h ⊢
      obtain ⟨⟨x, y⟩, hx, he⟩ := Option.map_eq_some_iff.1 h
      cases he
      obtain ⟨more, hmore⟩ := Literal.depthAfter_of_not_shows (Bool.eq_false_iff.2 hshows)
      rw [hmore] at hx
      obtain ⟨d, hd, hcs, hitems⟩ := ih hx (place + 1)
      refine ⟨d, hd, by rw [hcs]; rfl, ?_⟩
      rw [next, hmore, List.nil_append, hitems]
      simp only [List.cons_append, List.nil_append, List.length_cons, Nat.add_assoc, Nat.add_comm 1]

/-- If no bracket closes, nothing is shown. -/
theorem Scan.items_of_closeFrom_eq_none {l : Literal} {depth : Nat} {cs : List Char}
    (h : closeFrom l (depth + 1) cs = none) (place : Nat) :
    ({ literal := l, depth := depth + 1 } : Scan).items place cs = [] := by
  induction cs generalizing l depth place with
  | nil => rfl
  | cons c cs ih =>
    rw [closeFrom_cons, ← shows_inside] at h
    rw [items_cons]
    by_cases hshows : ({ literal := l, depth := depth + 1 } : Scan).shows c = true
    · rw [if_pos hshows] at h
      cases h
    · rw [if_neg hshows] at h ⊢
      obtain ⟨more, hmore⟩ := Literal.depthAfter_of_not_shows (Bool.eq_false_iff.2 hshows)
      rw [next, hmore]
      rw [hmore] at h
      exact ih (Option.map_eq_none_iff.1 h) (place + 1)

/-! ## 3. Byte offsets -/

/-- The byte offset of a place in a text. -/
def offsetOf (cs : List Char) (place : Nat) : Nat := byteLength (cs.take place)

theorem offsetOf_append (as bs : List Char) (k : Nat) :
    offsetOf (as ++ bs) (as.length + k) = byteLength as + offsetOf bs k := by
  rw [offsetOf, List.take_length_add_append, byteLength_append, offsetOf]

theorem offsetOf_length (as bs : List Char) : offsetOf (as ++ bs) as.length = byteLength as := by
  rw [offsetOf, List.take_left]

/-- The outline of a text, with byte offsets. -/
def outlineOffsets (cs : List Char) : List (Nat × Char) :=
  (outline cs).map fun item => (offsetOf cs item.1, item.2)

/-- Given the byte offset of an opening bracket, the byte offset of the bracket that closes it. -/
def closingOffset? (cs : List Char) (offset : Nat) : Option Nat :=
  match cs.drop (charsBefore offset cs).length with
  | [] => none
  | c :: rest => (matchingClose rest).map fun (inner, _) => offset + c.utf8Size + byteLength inner

theorem closingOffset?_append (pre : List Char) (c : Char) (post : List Char) :
    closingOffset? (pre ++ c :: post) (byteLength pre) =
      (matchingClose post).map fun (inner, _) =>
        byteLength pre + c.utf8Size + byteLength inner := by
  rw [closingOffset?, charsBefore_byteLength, List.drop_left]

/-- An opening bracket that is shown leaves top level. -/
theorem Scan.next_of_shows_opening {s : Scan} {c : Char} (h : s.shows c = true)
    (hc : isOpening c = true) : s.next c = Scan.within 1 := by
  obtain ⟨-, -, hclosing, -⟩ := classes_of_isOpening hc
  simp only [shows, hclosing, Bool.and_eq_true, decide_eq_true_eq, beq_iff_eq, Bool.false_eq_true,
    if_false] at h
  have hs : s = Scan.within 0 := by
    rw [within, ← h.1.1, ← h.2]
  rw [hs, next_within_of_isOpening hc]

/-- **The two scanners agree.**  Where the outline shows an opening bracket, the bracket that closes
it is the next item of the outline.  If no bracket closes it, there is no next item. -/
theorem closingOffset?_eq_next {cs : List Char} {before after : List (Nat × Char)} {offset : Nat}
    {c : Char} (h : outlineOffsets cs = before ++ (offset, c) :: after)
    (hc : isOpening c = true) :
    closingOffset? cs offset = after.head?.map Prod.fst ∧
      (∀ item ∈ after.head?, isClosing item.2 = true) ∧
      (closingOffset? cs offset = none ↔ after = []) := by
  obtain ⟨first, rest, hitems, -, hrest⟩ := List.map_eq_append_iff.1 h
  obtain ⟨item, later, rfl, hitem, rfl⟩ := List.map_eq_cons_iff.1 hrest
  obtain ⟨pre, post, rfl, hplace, hshows, rfl⟩ := Scan.exists_of_items_eq_append hitems
  obtain ⟨place, d⟩ := item
  obtain ⟨rfl, rfl⟩ := Prod.mk.inj hitem
  dsimp only at hplace hshows
  obtain rfl : place = pre.length := by omega
  rw [offsetOf_length, closingOffset?_append, Scan.next_of_shows_opening hshows hc, matchingClose]
  cases hclose : closeFrom .outside 1 post with
  | none =>
    have hnone := Scan.items_of_closeFrom_eq_none hclose (pre.length + 1)
    rw [Scan.within, hnone]
    simp
  | some p =>
    obtain ⟨inner, tail⟩ := p
    obtain ⟨e, he, rfl, hnext⟩ := Scan.items_of_closeFrom hclose (pre.length + 1)
    have hoffset : offsetOf (pre ++ d :: (inner ++ e :: tail)) (pre.length + 1 + inner.length) =
        byteLength pre + d.utf8Size + byteLength inner := by
      have hjoin : pre ++ d :: (inner ++ e :: tail) = (pre ++ d :: inner) ++ e :: tail := by simp
      have hlength : pre.length + 1 + inner.length = (pre ++ d :: inner).length := by
        simp only [List.length_append, List.length_cons]
        omega
      rw [hjoin, hlength, offsetOf_length, byteLength_append, byteLength_cons, Nat.add_assoc]
    rw [Scan.within, hnext]
    simp [hoffset, he]

/-- The theorem at a text in which a stray bracket and a character of two bytes stand before the
bracket, and a bracket in a literal and an inner bracket stand in it. -/
theorem closingOffset?_eq_next_stray :
    outlineOffsets "é)f('\\'(]', x[0]]+(".toList =
        [(0, 'é'), (2, ')'), (3, 'f')] ++ (4, '(') :: [(17, ']'), (18, '+'), (19, '(')] ∧
      isOpening '(' = true ∧ closingOffset? "é)f('\\'(]', x[0]]+(".toList 4 = some 17 := by
  have hitems : outlineOffsets "é)f('\\'(]', x[0]]+(".toList =
      [(0, 'é'), (2, ')'), (3, 'f')] ++ (4, '(') :: [(17, ']'), (18, '+'), (19, '(')] := by
    decide
  exact ⟨hitems, rfl, (closingOffset?_eq_next hitems rfl).1⟩

end TemplateCompiler.Text
