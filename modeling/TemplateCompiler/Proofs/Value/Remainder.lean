import TemplateCompiler.Value.Arithmetic

/-! # Remainders of integers

A remainder of `x` by `y` differs from `x` by a multiple of `y`, is smaller than `y` and has its
sign, if it is not zero.  There is one and no other for every `y` but zero (`IsRemainder.unique`).
It is computed from the truncated remainder, which has the sign of `x`: where the signs differ, `y`
is added.

Main statement: `mod_integers`.  Among all operands that are integers or count as integers it tells
those with a result apart, and the result is the remainder.  The truncated remainder and the sum
always fit in 64 bits.  The truncated quotient does not if the least integer is divided by minus
one, and then there is no result either, although the remainder is zero.
-/

namespace TemplateCompiler.Value

/-! ## 1. Remainders -/

/-- The remainder of a division whose quotient is rounded down: it has the sign of the divisor. -/
def IsRemainder (x y r : Int) : Prop :=
  (∃ q, x = q * y + r) ∧ r.natAbs < y.natAbs ∧ (r = 0 ∨ (r < 0 ↔ y < 0))

theorem IsRemainder.unique {x y r s : Int} (hr : IsRemainder x y r) (hs : IsRemainder x y s) :
    s = r := by
  obtain ⟨⟨q, hq⟩, hrlt, hrsign⟩ := hr
  obtain ⟨⟨p, hp⟩, hslt, hssign⟩ := hs
  -- the difference is a multiple of `y` and smaller than `y`
  have hdvd : y ∣ s - r := ⟨q - p, by rw [Int.mul_sub, Int.mul_comm y q, Int.mul_comm y p]; omega⟩
  have hzero : s - r = 0 := Int.eq_zero_of_dvd_of_natAbs_lt_natAbs hdvd (by omega)
  omega

/-- The truncated remainder with the divisor added where the signs differ. -/
def floored (x y : Int) : Int :=
  if x.tmod y ≠ 0 ∧ (x.tmod y < 0) ≠ (y < 0) then x.tmod y + y else x.tmod y

theorem natAbs_tmod_lt (x : Int) {y : Int} (hy : y ≠ 0) : (x.tmod y).natAbs < y.natAbs := by
  rw [Int.natAbs_tmod]
  exact Nat.mod_lt _ (Int.natAbs_pos.2 hy)

/-- **The corrected remainder is the remainder.** -/
theorem isRemainder_floored (x : Int) {y : Int} (hy : y ≠ 0) : IsRemainder x y (floored x y) := by
  have hlt := natAbs_tmod_lt x hy
  have hx : x = x.tdiv y * y + x.tmod y := by
    rw [Int.mul_comm]
    exact (Int.mul_tdiv_add_tmod x y).symm
  unfold floored
  split
  · rename_i hcorrect
    obtain ⟨hne, hsigns⟩ := hcorrect
    have hsigns : ¬(x.tmod y < 0 ↔ y < 0) := fun h => hsigns (propext h)
    refine ⟨⟨x.tdiv y - 1, ?_⟩, by omega, by omega⟩
    rw [Int.sub_mul]
    omega
  · rename_i hkeep
    have hsigns : x.tmod y = 0 ∨ (x.tmod y < 0 ↔ y < 0) := by
      by_cases hzero : x.tmod y = 0
      · exact .inl hzero
      · exact .inr (iff_of_eq (Classical.byContradiction fun h => hkeep ⟨hzero, h⟩))
    exact ⟨⟨x.tdiv y, hx⟩, hlt, hsigns⟩

/-! ## 2. Sixty-four bits -/

/-- An integer that 64 bits can hold. -/
def Fits (n : Int) : Prop := Int64.minValue.toInt ≤ n ∧ n ≤ Int64.maxValue.toInt

theorem fits_toInt (n : Int64) : Fits n.toInt := ⟨Int64.minValue_le_toInt n, Int64.toInt_le n⟩

theorem isNone_fitInt?_iff {n : Int} : (fitInt? n).isNone = true ↔ ¬Fits n := by
  unfold fitInt? Fits
  split <;> simp_all

theorem Fits.toInt_ofInt {n : Int} (h : Fits n) : (Int64.ofInt n).toInt = n :=
  Int64.toInt_ofInt_of_le h.1 (Int.lt_add_one_of_le h.2)

theorem Fits.of_natAbs_lt {r : Int} {n : Int64} (h : r.natAbs < n.toInt.natAbs) : Fits r := by
  have hn := fits_toInt n
  have hmin : Int64.minValue.toInt = -9223372036854775808 := rfl
  have hmax : Int64.maxValue.toInt = 9223372036854775807 := rfl
  unfold Fits at hn ⊢
  omega

theorem toInt_ne_zero {n : Int64} (h : n ≠ 0) : n.toInt ≠ 0 := fun hn => h (Int64.toInt_inj.1 hn)

/-- **Of all truncated quotients one does not fit.** -/
theorem fits_tdiv_iff {m n : Int64} (hn : n ≠ 0) :
    Fits (m.toInt.tdiv n.toInt) ↔ ¬(m = Int64.minValue ∧ n = -1) := by
  have hm := fits_toInt m
  have hy := toInt_ne_zero hn
  have hmin : Int64.minValue.toInt = -9223372036854775808 := rfl
  have hmax : Int64.maxValue.toInt = 9223372036854775807 := rfl
  have hone : (-1 : Int64).toInt = -1 := rfl
  have habs := Int.natAbs_tdiv m.toInt n.toInt
  rw [← Int64.toInt_inj, ← Int64.toInt_inj, hone]
  unfold Fits at hm ⊢
  constructor
  · rintro ⟨-, hle⟩ ⟨hleast, hminus⟩
    rw [hleast, hminus, hmin, hmax] at hle
    exact absurd hle (by decide)
  · intro hother
    by_cases hunit : n.toInt.natAbs = 1
    · have hcases : n.toInt = 1 ∨ n.toInt = -1 := by omega
      rcases hcases with hn | hn
      · rw [hn, Int.tdiv_one]
        exact hm
      · rw [hn, Int.tdiv_neg, Int.tdiv_one]
        omega
    · -- a divisor of at least two leaves at most half
      have hhalf : m.toInt.natAbs / n.toInt.natAbs ≤ m.toInt.natAbs / 2 :=
        Nat.div_le_div_left (by omega) (by decide)
      have habs : (m.toInt.tdiv n.toInt).natAbs = m.toInt.natAbs / n.toInt.natAbs := habs
      omega

theorem fits_floored (m : Int64) {n : Int64} (hn : n ≠ 0) : Fits (floored m.toInt n.toInt) :=
  .of_natAbs_lt (isRemainder_floored m.toInt (toInt_ne_zero hn)).2.1

/-! ## 3. The remainder of two operands -/

theorem modInt_eq (m : Int64) {n : Int64} (hn : n ≠ 0) (hother : ¬(m = Int64.minValue ∧ n = -1)) :
    modInt m n = .int (Int64.ofInt (floored m.toInt n.toInt)) := by
  have hguard : ¬(n.toInt = 0 ∨ (fitInt? (m.toInt.tdiv n.toInt)).isNone = true) := by
    rw [isNone_fitInt?_iff]
    rintro (hzero | hwide)
    · exact toInt_ne_zero hn hzero
    · exact hwide ((fits_tdiv_iff hn).2 hother)
  rw [modInt, if_neg hguard, floored]
  dsimp only
  split <;> rfl

theorem modInt_eq_undefined {m n : Int64} (h : n = 0 ∨ m = Int64.minValue ∧ n = -1) :
    modInt m n = .undefined := by
  rcases h with rfl | ⟨rfl, rfl⟩
  · exact if_pos (.inl rfl)
  · exact if_pos (.inr rfl)

theorem mod_eq_modInt {a b : Value} {m n : Int64} (ha : asInt? a = some m)
    (hb : asInt? b = some n) : mod a b = modInt m n := by
  rw [mod, ha, hb]

/-- **What the remainder of two integers is.**  There is none exactly for a zero divisor and for the
least integer by minus one.  For every divisor but zero the steps fit in 64 bits, and a result is
the one remainder that there is. -/
theorem mod_integers {a b : Value} {m n : Int64} (ha : asInt? a = some m)
    (hb : asInt? b = some n) :
    (mod a b = .undefined ↔ n = 0 ∨ m = Int64.minValue ∧ n = -1) ∧
      (n ≠ 0 → Fits (m.toInt.tmod n.toInt) ∧ Fits (floored m.toInt n.toInt)) ∧
      (mod a b ≠ .undefined → ∃ r : Int64, mod a b = .int r ∧
        IsRemainder m.toInt n.toInt r.toInt ∧
        ∀ s, IsRemainder m.toInt n.toInt s → s = r.toInt) := by
  rw [mod_eq_modInt ha hb]
  have hresult (h : ¬(n = 0 ∨ m = Int64.minValue ∧ n = -1)) :
      modInt m n = .int (Int64.ofInt (floored m.toInt n.toInt)) :=
    modInt_eq m (fun hn => h (.inl hn)) fun hm => h (.inr hm)
  refine ⟨⟨fun hnone => ?_, modInt_eq_undefined⟩, fun hn => ?_, fun hsome => ?_⟩
  · refine Decidable.byContradiction fun h => ?_
    rw [hresult h] at hnone
    cases hnone
  · exact ⟨.of_natAbs_lt (natAbs_tmod_lt _ (toInt_ne_zero hn)), fits_floored m hn⟩
  · have h : ¬(n = 0 ∨ m = Int64.minValue ∧ n = -1) := fun h => hsome (modInt_eq_undefined h)
    have hn : n ≠ 0 := fun hn => h (.inl hn)
    have hremainder := isRemainder_floored m.toInt (toInt_ne_zero hn)
    refine ⟨_, hresult h, ?_, ?_⟩
    · rwa [(fits_floored m hn).toInt_ofInt]
    · rw [(fits_floored m hn).toInt_ofInt]
      exact fun s hs => hremainder.unique hs

/-- The theorem at the least integer and a truth value, which counts as one, and at the least
integer and ten, whose sign the remainder has. -/
theorem mod_integers_least :
    (asInt? (.bool true) = some 1 ∧
      ∃ r : Int64, mod (.int Int64.minValue) (.bool true) = .int r ∧
        IsRemainder Int64.minValue.toInt 1 r.toInt) ∧
    asInt? (.int Int64.minValue) = some Int64.minValue ∧
      IsRemainder Int64.minValue.toInt 10 2 ∧ mod (.int Int64.minValue) (.int 10) = .int 2 := by
  obtain ⟨hnone, -, hsome⟩ := mod_integers (a := .int Int64.minValue) (b := .bool true) rfl rfl
  obtain ⟨r, hr, hremainder, -⟩ := hsome fun h => absurd (hnone.1 h) (by decide)
  obtain ⟨hnone, -, hsome⟩ := mod_integers (a := .int Int64.minValue) (b := .int 10) rfl rfl
  obtain ⟨s, hs, hten, -⟩ := hsome fun h => absurd (hnone.1 h) (by decide)
  have htwo : mod (.int Int64.minValue) (.int 10) = .int 2 := rfl
  have hs2 : Value.int 2 = .int s := htwo.symm.trans hs
  cases hs2
  exact ⟨⟨rfl, r, hr, hremainder⟩, rfl, hten, htwo⟩

/-- The least integer leaves the remainder zero when it is divided by minus one, but has none. -/
theorem mod_least_minus_one :
    mod (.int Int64.minValue) (.int (-1)) = .undefined ∧
      IsRemainder Int64.minValue.toInt (-1 : Int64).toInt (0 : Int64).toInt :=
  ⟨rfl, ⟨9223372036854775808, rfl⟩, by decide, .inl rfl⟩

end TemplateCompiler.Value
