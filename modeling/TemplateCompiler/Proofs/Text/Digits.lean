import Mathlib.Data.List.Induction
import Mathlib.Data.List.TakeWhile
import TemplateCompiler.Proofs.Text.Word

/-! # Digits

A number stands in a text as digits, and it ends where something else than a digit follows
(`DigitEnd`).  Zeros in front count for nothing: digits without them are those that the number is
written with (`toDigits_decimalValue`).
-/

namespace TemplateCompiler.Text

/-! ## 1. Digits in a text -/

/-- One digit or more. -/
def Digits (ds : List Char) : Prop := ds ≠ [] ∧ ∀ c ∈ ds, c.isDigit = true

instance (ds : List Char) : Decidable (Digits ds) :=
  decidable_of_iff ((!ds.isEmpty && ds.all Char.isDigit) = true) (by simp [Digits])

/-- What does not go on with a digit. -/
def DigitEnd (rest : List Char) : Prop := ∀ c ∈ rest.head?, c.isDigit = false

theorem digits_toDigits (n : Nat) : Digits (Nat.toDigits 10 n) :=
  ⟨Nat.toDigits_ne_nil, fun _ hc => Nat.isDigit_of_mem_toDigits (by decide) (by decide) hc⟩

theorem Digits.startsWithDigit {ds : List Char} (h : Digits ds) (rest : List Char) :
    startsWithDigit (ds ++ rest) = true := by
  obtain ⟨c, more, rfl⟩ := List.exists_cons_of_ne_nil h.1
  exact h.2 c (by simp)

theorem Digits.append {as bs : List Char} (ha : Digits as) (hb : ∀ c ∈ bs, c.isDigit = true) :
    Digits (as ++ bs) := by
  refine ⟨by simp [ha.1], fun c hc => ?_⟩
  rcases List.mem_append.1 hc with hc | hc
  · exact ha.2 c hc
  · exact hb c hc

theorem isDigit_of_mem_zeros {n : Nat} {c : Char} (h : c ∈ List.replicate n '0') :
    c.isDigit = true := by
  rw [List.eq_of_mem_replicate h]
  decide

/-- Zeros before digits. -/
theorem Digits.zeros_append {ds : List Char} (n : Nat) (h : Digits ds) :
    Digits (List.replicate n '0' ++ ds) := by
  refine ⟨by simp [h.1], fun c hc => ?_⟩
  rcases List.mem_append.1 hc with hc | hc
  · exact isDigit_of_mem_zeros hc
  · exact h.2 c hc

/-- Digits belong to every class that has the characters of names. -/
theorem Digits.all {p : Char → Bool} (hp : ∀ c, isIdentChar c = true → p c = true) {ds : List Char}
    (h : Digits ds) : ds.all p = true :=
  List.all_eq_true.2 fun c hc => hp c (isIdentChar_of_isDigit (h.2 c hc))

theorem digitEnd_nil : DigitEnd [] := by
  intro c hc
  cases hc

theorem digitEnd_cons {c : Char} (hc : c.isDigit = false) (rest : List Char) :
    DigitEnd (c :: rest) := by simpa [DigitEnd] using hc

/-! ## 2. What digits spell -/

/-- The number that digits spell: every further digit multiplies by ten what stands before it. -/
def decimalValue (digits : List Char) : Nat :=
  digits.foldl (fun n c => 10 * n + (c.toNat - '0'.toNat)) 0

/-- The digits without the zeros in front; of zeros alone one stays. -/
def plainDigits (digits : List Char) : List Char :=
  match digits.dropWhile (· = '0') with
  | [] => ['0']
  | first :: more => first :: more

@[simp] theorem decimalValue_append_singleton (digits : List Char) (c : Char) :
    decimalValue (digits ++ [c]) = 10 * decimalValue digits + (c.toNat - '0'.toNat) := by
  simp [decimalValue]

/-- A digit is the character of its value. -/
theorem digitChar_of_isDigit {c : Char} (h : c.isDigit = true) :
    c.toNat - '0'.toNat < 10 ∧ Nat.digitChar (c.toNat - '0'.toNat) = c := by
  obtain ⟨hlow, hhigh⟩ := isDigit_iff.1 h
  have hzero : '0'.toNat = 48 := rfl
  have hlt : c.toNat - '0'.toNat < 10 := by omega
  refine ⟨hlt, Char.toNat_inj.1 ?_⟩
  rw [Nat.toNat_digitChar_of_lt_ten hlt]
  omega

/-- Digits spell zero only if they are all zeros. -/
theorem decimalValue_eq_zero_iff {digits : List Char} (h : ∀ c ∈ digits, c.isDigit = true) :
    decimalValue digits = 0 ↔ digits.dropWhile (· = '0') = [] := by
  induction digits using List.reverseRecOn with
  | nil => simp [decimalValue]
  | append_singleton digits c ih =>
    obtain ⟨hlt, hchar⟩ := digitChar_of_isDigit (h c (by simp))
    have hzero : c.toNat - '0'.toNat = 0 ↔ c = '0' := by
      constructor
      · intro hz
        rw [hz] at hchar
        exact hchar.symm
      · rintro rfl
        rfl
    rw [decimalValue_append_singleton, Nat.add_eq_zero_iff, Nat.mul_eq_zero, hzero]
    have ih := ih fun c hc => h c (by simp [hc])
    rw [List.dropWhile_eq_nil_iff] at ih ⊢
    simp [ih, or_imp, forall_and]

/-- **A number is written by the digits that spell it, without the zeros in front.** -/
theorem toDigits_decimalValue {digits : List Char} (h : ∀ c ∈ digits, c.isDigit = true) :
    Nat.toDigits 10 (decimalValue digits) = plainDigits digits := by
  induction digits using List.reverseRecOn with
  | nil => rfl
  | append_singleton digits c ih =>
    obtain ⟨hlt, hchar⟩ := digitChar_of_isDigit (h c (by simp))
    have hdigits : ∀ c ∈ digits, c.isDigit = true := fun c hc => h c (by simp [hc])
    have hlast : Nat.toDigits 10 (c.toNat - '0'.toNat) = [c] := by
      rw [Nat.toDigits_of_lt_base hlt, hchar]
    rw [decimalValue_append_singleton]
    cases hkept : digits.dropWhile (· = '0') with
    | nil =>
      rw [(decimalValue_eq_zero_iff hdigits).2 hkept, Nat.mul_zero, Nat.zero_add, hlast, plainDigits,
        List.dropWhile_append, hkept]
      by_cases hc : c = '0' <;> simp [hc]
    | cons first more =>
      have hpos : 0 < decimalValue digits := by
        rw [Nat.pos_iff_ne_zero, Ne, decimalValue_eq_zero_iff hdigits, hkept]
        simp
      rw [← Nat.toDigits_append_toDigits (by decide) hpos hlt, ih hdigits, hlast, plainDigits,
        plainDigits, List.dropWhile_append, hkept]
      rfl

end TemplateCompiler.Text
