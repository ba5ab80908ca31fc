import TemplateCompiler.Value.Compare

/-! # The order of texts

Texts are ordered by the first character in which they differ.  The order is linear: no two texts
stand at the same place (`eq_of_atMost`), of two texts one is at most the other (`atMost_total`),
and what is at most a text is at most every text after it (`atMost_trans`).
-/

namespace TemplateCompiler.Value

theorem eq_of_compareText {s t : List Char} (h : compareText s t = .eq) : s = t := by
  fun_induction compareText s t with
  | case1 => rfl
  | case2 => cases h
  | case3 => cases h
  | case4 c cs d ds hchar ih =>
    rw [Nat.compare_eq_eq] at hchar
    rw [Char.toNat_inj.1 hchar, ih h]
  | case5 c cs d ds hchar => exact absurd h hchar

theorem compareText_self (s : List Char) : compareText s s = .eq := by
  induction s with
  | nil => rfl
  | cons c cs ih => simp [compareText, ih]

/-- Whether a text comes before another or is the same. -/
def atMost (s t : List Char) : Bool := compareText s t != .gt

theorem atMost_nil (t : List Char) : atMost [] t = true := by
  cases t <;> rfl

/-- The first character decides if it differs. -/
theorem atMost_cons {c d : Char} {cs ds : List Char} :
    atMost (c :: cs) (d :: ds) = true ↔ c.toNat < d.toNat ∨ c = d ∧ atMost cs ds = true := by
  have hcd : c = d ↔ c.toNat = d.toNat := Char.toNat_inj.symm
  rw [hcd, atMost, compareText]
  cases h : compare c.toNat d.toNat with
  | lt =>
    have hlt := Nat.compare_eq_lt.1 h
    simp [hlt]
  | eq =>
    have heq := Nat.compare_eq_eq.1 h
    simp [heq, atMost]
  | gt =>
    have hgt := Nat.compare_eq_gt.1 h
    simp only [bne_self_eq_false, Bool.false_eq_true, false_iff, not_or, not_and]
    omega

theorem eq_of_atMost {s t : List Char} (hst : atMost s t = true) (hts : atMost t s = true) :
    s = t := by
  induction s generalizing t with
  | nil =>
    cases t with
    | nil => rfl
    | cons d ds => cases hts
  | cons c cs ih =>
    cases t with
    | nil => cases hst
    | cons d ds =>
      rw [atMost_cons] at hst hts
      rcases hst with hlt | ⟨rfl, hst⟩
      · rcases hts with hgt | ⟨rfl, -⟩ <;> omega
      · rcases hts with hgt | ⟨-, hts⟩
        · omega
        · rw [ih hst hts]

theorem atMost_total (s t : List Char) : (atMost s t || atMost t s) = true := by
  rw [Bool.or_eq_true]
  induction s generalizing t with
  | nil => exact .inl (atMost_nil t)
  | cons c cs ih =>
    cases t with
    | nil => exact .inr (atMost_nil _)
    | cons d ds =>
      rw [atMost_cons, atMost_cons]
      rcases Nat.lt_trichotomy c.toNat d.toNat with hlt | heq | hgt
      · exact .inl (.inl hlt)
      · obtain rfl := Char.toNat_inj.1 heq
        exact (ih ds).imp (fun h => .inr ⟨rfl, h⟩) fun h => .inr ⟨rfl, h⟩
      · exact .inr (.inl hgt)

theorem atMost_trans {s t u : List Char} (hst : atMost s t = true) (htu : atMost t u = true) :
    atMost s u = true := by
  induction s generalizing t u with
  | nil => exact atMost_nil u
  | cons c cs ih =>
    cases t with
    | nil => cases hst
    | cons d ds =>
      cases u with
      | nil => cases htu
      | cons e es =>
        rw [atMost_cons] at hst htu ⊢
        rcases hst with hlt | ⟨rfl, hst⟩
        · rcases htu with hlt' | ⟨rfl, -⟩
          · exact .inl (Nat.lt_trans hlt hlt')
          · exact .inl hlt
        · exact htu.imp_right fun ⟨heq, htu⟩ => ⟨heq, ih hst htu⟩

end TemplateCompiler.Value
