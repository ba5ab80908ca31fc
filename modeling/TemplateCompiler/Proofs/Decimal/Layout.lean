import TemplateCompiler.Proofs.Decimal.Sign
import TemplateCompiler.Proofs.Target.Lexeme
import TemplateCompiler.Target.Code

/-! # What a written double looks like

However many digits a double needs and however large it is, it is written as a number with a
fraction or a power of ten: the reader of generated code never takes it for an integer
(`isFloatText_writeFloat`).
-/

namespace TemplateCompiler.Decimal

open Target Text

/-! ## 1. The two notations -/

theorem isFloatText_positional (d : Decimal) : IsFloatText (positional d) := by
  have hdigits := digits_toDigits d.digits
  unfold positional
  dsimp only
  split
  · rename_i zeros _
    refine ⟨Nat.toDigits 10 d.digits ++ List.replicate zeros '0', ['.', '0'], [], by simp,
      Digits.append hdigits fun _ => isDigit_of_mem_zeros, .inr ⟨['0'], ?_, rfl⟩, .inl rfl,
      .inl (by simp)⟩
    exact digits_toDigits 0
  · rename_i k _
    -- at least one digit before the point and `k + 1` after it
    generalize hpad : List.replicate (k + 2 - (Nat.toDigits 10 d.digits).length) '0' ++
      Nat.toDigits 10 d.digits = padding
    have hds : Digits padding := hpad ▸ Digits.zeros_append _ hdigits
    have hlen : k + 2 ≤ padding.length := by
      rw [← hpad, List.length_append, List.length_replicate]
      omega
    refine ⟨padding.take (padding.length - (k + 1)), '.' :: padding.drop (padding.length - (k + 1)),
      [], by simp, ⟨?_, fun c hc => hds.2 c (List.mem_of_mem_take hc)⟩, .inr ⟨_, ⟨?_, fun c hc =>
      hds.2 c (List.mem_of_mem_drop hc)⟩, rfl⟩, .inl rfl, .inl (by simp)⟩
    · rw [← List.length_pos_iff, List.length_take]
      omega
    · rw [← List.length_pos_iff, List.length_drop]
      omega

theorem isFloatText_scientific (d : Decimal) : IsFloatText (scientific floatStyle d) := by
  have hdigits := digits_toDigits d.digits
  unfold scientific
  dsimp only
  generalize d.exponent + (((Nat.toDigits 10 d.digits).length - 1 : Nat) : Int) = power
  have hpower : IsPower ('e' :: ((if power < 0 then ['-'] else
      if floatStyle.plusSign then ['+'] else []) ++ padded floatStyle.powerDigits power.natAbs)) := by
    refine .inr ⟨_, _, Digits.zeros_append _ (digits_toDigits _), ?_, rfl⟩
    split
    · exact .inr rfl
    · exact .inl rfl
  generalize Nat.toDigits 10 d.digits = digits at hdigits ⊢
  match digits, hdigits with
  | [c], h => exact ⟨[c], [], _, rfl, h, .inl rfl, hpower, .inr (by simp)⟩
  | first :: second :: rest, h =>
    refine ⟨[first], '.' :: second :: rest, _, by simp, ⟨by simp, fun c hc => h.2 c ?_⟩,
      .inr ⟨second :: rest, ⟨by simp, fun c hc => h.2 c (by simp [List.mem_cons.1 hc])⟩, rfl⟩,
      hpower, .inl (by simp)⟩
    obtain rfl : c = first := by simpa using hc
    simp

/-- **A double without a negative sign is written as a number with a fraction or a power.** -/
theorem isFloatText_writeFloat {x : Float} (h : IsUnsigned x) :
    IsFloatText (writeFloat floatStyle x) := by
  have hsign : x.toBits.toNat / signWeight ≠ 1 := by
    rw [Nat.div_eq_of_lt h.toNat_lt]
    decide
  unfold writeFloat
  simp only [if_neg hsign, List.nil_append]
  split
  · exact ⟨['0'], ['.', '0'], [], rfl, digits_toDigits 0, .inr ⟨['0'], digits_toDigits 0, rfl⟩,
      .inl rfl, .inl (by simp)⟩
  · unfold write
    split
    · exact isFloatText_positional _
    · exact isFloatText_scientific _

end TemplateCompiler.Decimal
