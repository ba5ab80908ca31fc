import Mathlib.Algebra.Group.Int.Defs
import Mathlib.Algebra.Group.Nat.Defs
import TemplateCompiler.Value.Basic

/-! # Integers as doubles

Truth values are compared with integers as doubles, so it matters which integers become the doubles
zero and one.  Main statement: only zero and one do (`intFloat_beq_boolInt`).  Large integers are
rounded, but whatever is at least two has an exponent larger than that of one, before and after
rounding (`Large`).
-/

namespace TemplateCompiler.Value

open Float.Model Float.Model.UnpackedFloat

/-! ## 1. Numbers of at least two -/

/-- A number of at least two, in its normal form of 53 bits, with a bound on the exponent. -/
def Large (bound : Int) : UnpackedFloat → Prop
  | .finite _ m e _ => m.log2 = 52 ∧ -51 ≤ e ∧ e ≤ bound
  | _ => False

theorem Large.neg {bound : Int} {f : UnpackedFloat} (h : Large bound f) : Large bound f.neg := by
  cases f with
  | finite s m e hm => exact h
  | _ => exact h

theorem Large.mono {bound bound' : Int} {f : UnpackedFloat} (h : Large bound f)
    (hle : bound ≤ bound') : Large bound' f := by
  cases f with
  | finite s m e hm => exact ⟨h.1, h.2.1, Int.le_trans h.2.2 hle⟩
  | _ => exact h

theorem log2_mul_twoPow {m : Nat} (hm : m ≠ 0) (k : Nat) : (m * 2 ^ k).log2 = m.log2 + k := by
  have hlow := Nat.log2_self_le hm
  have hhigh := Nat.lt_log2_self (n := m)
  rw [Nat.log2_eq_iff (Nat.mul_ne_zero hm (Nat.ne_of_gt (Nat.two_pow_pos k)))]
  constructor
  · rw [Nat.pow_add]
    exact Nat.mul_le_mul_right _ hlow
  · rw [Nat.add_right_comm, Nat.pow_add]
    exact Nat.mul_lt_mul_of_pos_right hhigh (Nat.two_pow_pos k)

/-- The leading 53 bits of a number. -/
theorem leading_bits {m : Nat} (h : 52 ≤ m.log2) :
    2 ^ 52 ≤ m / 2 ^ (m.log2 - 52) ∧ m / 2 ^ (m.log2 - 52) < 2 ^ 53 := by
  have hm : m ≠ 0 := by
    rintro rfl
    exact absurd h (by decide)
  have hpos := Nat.two_pow_pos (m.log2 - 52)
  have hlow := Nat.log2_self_le hm
  have hhigh := Nat.lt_log2_self (n := m)
  constructor
  · rw [Nat.le_div_iff_mul_le hpos, ← Nat.pow_add]
    rwa [show 52 + (m.log2 - 52) = m.log2 by omega]
  · rw [Nat.div_lt_iff_lt_mul hpos, ← Nat.pow_add]
    rwa [show 53 + (m.log2 - 52) = m.log2 + 1 by omega]

theorem mantissa_shift (m n : Nat) :
    (ExtendedMantissa.ofMantissaAndAccuracy m .exact >>> n).mantissa = m / 2 ^ n := by
  induction n with
  | zero => exact (Nat.div_one _).symm
  | succ n ih =>
    change (ExtendedMantissa.ofMantissaAndAccuracy m .exact >>> n).mantissa / 2 = _
    rw [ih, Nat.div_div_eq_div_mul, Nat.pow_succ]

/-- Rounding moves a mantissa by one at most. -/
theorem roundedMantissa_bounds (em : ExtendedMantissa) :
    em.mantissa ≤ em.roundedMantissa ∧ em.roundedMantissa ≤ em.mantissa + 1 := by
  unfold ExtendedMantissa.roundedMantissa ExtendedMantissa.accuracy
  split <;> simp only [Accuracy.roundToNearestEven] <;> omega

/-- A number of at least two is shifted until 53 bits are left. -/
theorem shiftToTargetExponent_eq {m : Nat} {e : Int} (accuracy : Accuracy) (hm : 52 ≤ m.log2)
    (hlow : 2 ≤ totalExponent m e) :
    shiftToTargetExponent Format.binary64 m e accuracy =
      (ExtendedMantissa.ofMantissaAndAccuracy m accuracy >>> (m.log2 - 52), m.log2 - 52 + e) := by
  have hbits : (Format.binary64.mantissaBits : Int) = 53 := rfl
  have hmin : Format.binary64.minExponent = -1074 := rfl
  have htotal : totalExponent m e = m.log2 + 1 + e := rfl
  have htarget : Format.binary64.targetExponent (totalExponent m e) = m.log2 - 52 + e := by
    rw [Format.targetExponent, hbits, hmin]
    omega
  have hamount : (m.log2 - 52 + e - e : Int).toNat = m.log2 - 52 := by omega
  simp only [shiftToTargetExponent, shiftToExponent, htarget, hamount, Prod.mk.injEq, true_and]
  omega

/-- **Rounding keeps a number large.** -/
theorem large_roundWithAccuracy {sign : Sign} {m : Nat} {e bound : Int} (hm : 52 ≤ m.log2)
    (hlow : 2 ≤ totalExponent m e) (hhigh : totalExponent m e ≤ bound + 51) :
    Large bound (roundWithAccuracy Format.binary64 sign m e .exact) := by
  have htotal : totalExponent m e = m.log2 + 1 + e := rfl
  unfold roundWithAccuracy
  rw [shiftToTargetExponent_eq .exact hm hlow]
  dsimp only
  obtain ⟨hqlow, hqhigh⟩ := leading_bits hm
  obtain ⟨hrlow, hrhigh⟩ := roundedMantissa_bounds
    (ExtendedMantissa.ofMantissaAndAccuracy m .exact >>> (m.log2 - 52))
  rw [mantissa_shift] at hrlow hrhigh
  generalize ExtendedMantissa.roundedMantissa _ = r at hrlow hrhigh ⊢
  -- a carry into the next bit is shifted away
  have hcarry : r.log2 = 52 ∨ r.log2 = 53 := by
    rw [Nat.log2_eq_iff (by omega), Nat.log2_eq_iff (by omega)]
    omega
  have hrtotal : totalExponent r (m.log2 - 52 + e) = r.log2 + 1 + (m.log2 - 52 + e) := rfl
  rw [shiftToTargetExponent_eq .exact (by omega) (by omega)]
  dsimp only
  rw [mantissa_shift]
  obtain ⟨hlow', hhigh'⟩ := leading_bits (m := r) (by omega)
  rw [dif_neg (show r / 2 ^ (r.log2 - 52) ≠ 0 by omega)]
  refine ⟨(Nat.log2_eq_iff (by omega)).2 ⟨hlow', hhigh'⟩, ?_, ?_⟩ <;> omega

/-! ## 2. Packed numbers -/

/-- The double that a number is packed into. -/
def packed (f : UnpackedFloat) : Float := .ofModel (Float.Model.pack f)

theorem pack_eq_of_large {bound : Int} {f : UnpackedFloat} (h : Large bound f) (hb : bound ≤ 970) :
    ∃ s m e, ∃ hm : 0 < m, f = .finite s m e hm ∧ -51 ≤ e ∧ e ≤ bound ∧
      UnpackedFloat.pack Format.binary64 f =
        packComponents Format.binary64 s (BitVec.ofNat 11 (e + 1075).toNat) (BitVec.ofNat 52 m) := by
  cases f with
  | finite s m e hm =>
    obtain ⟨hlog, hlow, hhigh⟩ := h
    refine ⟨s, m, e, hm, rfl, hlow, hhigh, ?_⟩
    have hbias : (e + Format.binary64.exponentBias + Format.binary64.mantissaBitsWithoutImplicit).toNat
        = (e + 1075).toNat := by
      have h : e + (1023 : Nat) + (52 : Nat) = e + 1075 := by omega
      exact congrArg Int.toNat h
    have hfinite : ¬2 ^ Format.binary64.exponentBits ≤ (e + 1075).toNat + 1 := by
      change ¬2048 ≤ (e + 1075).toNat + 1
      omega
    have hnormal : m.log2 + 1 = Format.binary64.mantissaBits := by
      rw [hlog]
      rfl
    unfold UnpackedFloat.pack
    dsimp only
    rw [hbias, if_neg hfinite, if_pos hnormal]
  | _ => exact h.elim

/-- The first of 53 bits is not stored. -/
theorem log2_implicitBit (m : BitVec 52) : (1#1 ++ m).toNat.log2 = 52 := by
  have hvalue : (1#1 ++ m).toNat = 2 ^ 52 + m.toNat := by
    rw [BitVec.toNat_append, ← Nat.shiftLeft_add_eq_or_of_lt m.isLt]
    rfl
  rw [hvalue, Nat.log2_eq_iff (by omega)]
  have hlt := m.isLt
  omega

/-- A double is large if its exponent says so, since no exponent of a large number is one of the two
with a meaning of its own. -/
theorem large_unpack {bound : Int} {v : BitVec Format.binary64.numBits} {k : Nat}
    (hk : (unpackExponent v).toNat = k) (hlow : 1024 ≤ k) (hhigh : (k : Int) ≤ bound + 1075)
    (hb : bound ≤ 970) : Large bound (UnpackedFloat.unpack Format.binary64 v) := by
  have hneg : unpackExponent v ≠ -BitVec.ofNat Format.binary64.exponentBits 1 := by
    intro heq
    rw [heq] at hk
    change 2047 = k at hk
    omega
  have hzero : unpackExponent v ≠ BitVec.ofNat Format.binary64.exponentBits 0 := by
    intro heq
    rw [heq] at hk
    change 0 = k at hk
    omega
  have hbias : ((Format.binary64.exponentBias : Int) + Format.binary64.mantissaBitsWithoutImplicit)
    = 1075 := rfl
  unfold UnpackedFloat.unpack
  dsimp only
  rw [if_neg hneg, if_neg hzero]
  refine ⟨log2_implicitBit _, ?_, ?_⟩ <;> rw [hk, hbias] <;> omega

/-- **Unpacking gives a large number back.** -/
theorem Large.unpack_pack {bound : Int} {f : UnpackedFloat} (h : Large bound f)
    (hb : bound ≤ 970) : Large bound (packed f).toModel.unpack := by
  obtain ⟨s, m, e, hm, -, hlow, hhigh, hpack⟩ := pack_eq_of_large h hb
  have hexponent : (BitVec.ofNat 11 (e + 1075).toNat).toNat = (e + 1075).toNat :=
    Nat.mod_eq_of_lt (by omega)
  change Large bound (UnpackedFloat.unpack Format.binary64 (UnpackedFloat.pack Format.binary64 f))
  rw [hpack]
  have hk := congrArg BitVec.toNat (@unpackExponent_packComponents Format.binary64 s
    (BitVec.ofNat 11 (e + 1075).toNat) (BitVec.ofNat 52 m))
  exact large_unpack (hk.trans hexponent) (by omega) (by omega) hb

/-! ## 3. Integers -/

/-- The numeral one. -/
def oneFloat : Float := Float.exactlyRepresentablePowersOfTen[0]

theorem unpack_oneFloat :
    oneFloat.toModel.unpack = .finite .positive (2 ^ 52) (-52) (Nat.two_pow_pos 52) := rfl

theorem Large.mul_one {bound : Int} {f : UnpackedFloat} (h : Large bound f) :
    Large (bound + 2) (UnpackedFloat.mul Format.binary64 f oneFloat.toModel.unpack) := by
  rw [unpack_oneFloat]
  cases f with
  | finite s m e hm =>
    obtain ⟨hlog, hlow, hhigh⟩ := h
    have hscaled := log2_mul_twoPow (Nat.ne_of_gt hm) 52
    have htotal : totalExponent (m * 2 ^ 52) (e + -52) = (m * 2 ^ 52).log2 + 1 + (e + -52) := rfl
    refine large_roundWithAccuracy ?_ ?_ ?_ <;> omega
  | _ => exact h.elim

/-- Up to 53 bits an integer is put into its normal form. -/
theorem large_ofNat {n : Nat} (hn : 2 ≤ n) (hlt : n < 2 ^ 64) :
    Large 13 (UnpackedFloat.ofNat Format.binary64 n) := by
  have hlog : 1 ≤ n.log2 ∧ n.log2 < 64 :=
    ⟨(Nat.le_log2 (by omega)).2 hn, (Nat.log2_lt (by omega)).2 hlt⟩
  have hbits : (Format.binary64.mantissaBits : Int) = 53 := rfl
  have hmin : Format.binary64.minExponent = -1074 := rfl
  have htotal : totalExponent n 0 = n.log2 + 1 + 0 := rfl
  have htarget : Format.binary64.targetExponent (totalExponent n 0) = n.log2 - 52 := by
    rw [Format.targetExponent, hbits, hmin]
    omega
  have hamount : (0 - ((n.log2 : Int) - 52)).toNat = 52 - n.log2 := by omega
  have hpos : compare (n : Int) 0 = .gt := by
    rw [Int.compare_eq_gt]
    omega
  unfold UnpackedFloat.ofNat UnpackedFloat.ofInt UnpackedFloat.normalize
  rw [hpos]
  simp only [UnpackedFloat.round, UnpackedFloat.decreaseExponent, Int.toNat_natCast, htarget, hamount]
  rw [Nat.shiftLeft_eq]
  have hscaled := log2_mul_twoPow (show n ≠ 0 by omega) (52 - n.log2)
  have hnew : totalExponent (n * 2 ^ (52 - n.log2)) (0 - ((52 - n.log2 : Nat) : Int)) =
      (n * 2 ^ (52 - n.log2)).log2 + 1 + (0 - ((52 - n.log2 : Nat) : Int)) := rfl
  refine large_roundWithAccuracy ?_ ?_ ?_ <;> omega

/-- Beyond 53 bits it is rounded. -/
theorem large_ofScientific {n : Nat} (hn : 2 ^ 53 ≤ n) (hlt : n < 2 ^ 64) :
    Large 13 (UnpackedFloat.ofScientific Format.binary64 n 0) := by
  have hlog : 53 ≤ n.log2 ∧ n.log2 < 64 :=
    ⟨(Nat.le_log2 (by omega)).2 hn, (Nat.log2_lt (by omega)).2 hlt⟩
  have hrange : (2 : Int) ^ Format.binary64.exponentBits = 2048 := rfl
  unfold UnpackedFloat.ofScientific
  rw [hrange, dif_neg (by omega), if_neg (by omega), if_neg (by omega), if_pos (by omega)]
  have hscaled := log2_mul_twoPow (show n ≠ 0 by omega) 53
  have hwide : (n <<< Format.binary64.mantissaBits * 10 ^ (0 : Int).toNat) = n * 2 ^ 53 := by
    rw [Nat.shiftLeft_eq]
    exact Nat.mul_one _
  unfold UnpackedFloat.mul
  dsimp only
  rw [hwide]
  have hbits : (Format.binary64.mantissaBits : Int) = 53 := rfl
  rw [hbits]
  have htotal : totalExponent (n * 2 ^ 53) (-53 + 0) = (n * 2 ^ 53).log2 + 1 + (-53 + 0) := rfl
  refine large_roundWithAccuracy ?_ ?_ ?_ <;> omega

theorem exists_large_ofNat {n : Nat} (hn : 2 ≤ n) (hlt : n < 2 ^ 64) :
    ∃ f, Large 15 f ∧ Float.ofNat n = packed f := by
  change ∃ f, Large 15 f ∧ Float.ofScientific n false 0 = packed f
  unfold Float.ofScientific
  split
  · have hword : n.toUInt64.toNat = n := Nat.mod_eq_of_lt hlt
    have hlarge : Large 13 (UnpackedFloat.ofUInt64 Format.binary64 n.toUInt64) := by
      rw [UnpackedFloat.ofUInt64, hword]
      exact large_ofNat hn hlt
    exact ⟨_, (hlarge.unpack_pack (by omega)).mul_one, rfl⟩
  · rename_i hwide
    exact ⟨_, (large_ofScientific (by omega) hlt).mono (by omega), rfl⟩

/-- **An integer other than zero, one and minus one becomes a large double.** -/
theorem exists_large_intFloat {n : Int64} (hn : 2 ≤ n.toInt.natAbs) :
    ∃ f, Large 15 f ∧ intFloat n = packed f := by
  have hlow := Int64.minValue_le_toInt n
  have hhigh := Int64.toInt_le n
  have hmin : Int64.minValue.toInt = -9223372036854775808 := rfl
  have hmax : Int64.maxValue.toInt = 9223372036854775807 := rfl
  have hlt : n.toInt.natAbs < 2 ^ 64 := by omega
  obtain ⟨f, hf, hpacked⟩ := exists_large_ofNat hn hlt
  rcases Int.natAbs_eq n.toInt with h | h
  · refine ⟨f, hf, ?_⟩
    rw [intFloat, h, ← hpacked]
    rfl
  · obtain ⟨k, hk⟩ : ∃ k, n.toInt.natAbs = k + 1 := ⟨n.toInt.natAbs - 1, by omega⟩
    refine ⟨_, (hf.unpack_pack (by omega)).neg, ?_⟩
    rw [intFloat, h, ← hpacked, hk]
    rfl

/-! ## 4. Zero and one -/

theorem Large.compare_one {bound : Int} {f : UnpackedFloat} (h : Large bound f) :
    f.beq oneFloat.toModel.unpack = false ∧ oneFloat.toModel.unpack.beq f = false := by
  rw [unpack_oneFloat]
  cases f with
  | finite s m e hm =>
    cases s with
    | negative => exact ⟨rfl, rfl⟩
    | positive =>
      have hgt : compare e (-52) = .gt := Int.compare_eq_gt.2 (by have := h.2.1; omega)
      have hlt : compare (-52) e = .lt := Int.compare_eq_lt.2 (by have := h.2.1; omega)
      constructor
      · change (some ((compare e (-52)).then (compare m (2 ^ 52))) == some .eq) = false
        rw [hgt]
        rfl
      · change (some ((compare (-52) e).then (compare (2 ^ 52) m)) == some .eq) = false
        rw [hlt]
        rfl
  | _ => exact h.elim

theorem Large.compare_zero {bound : Int} {f : UnpackedFloat} (h : Large bound f) (s : Sign) :
    f.beq (.zero s) = false ∧ (UnpackedFloat.zero s).beq f = false := by
  cases f with
  | finite sign m e hm => cases sign <;> exact ⟨rfl, rfl⟩
  | _ => exact h.elim

theorem Large.compare_boolInt {bound : Int} {f : UnpackedFloat} (h : Large bound f)
    (hb : bound ≤ 970) (b : Bool) :
    (packed f == intFloat (boolInt b)) = false ∧ (intFloat (boolInt b) == packed f) = false := by
  have hlarge := h.unpack_pack hb
  cases b with
  | false => exact hlarge.compare_zero .positive
  | true => exact hlarge.compare_one

/-- **Of all integers only zero and one become the double zero or one.** -/
theorem intFloat_beq_boolInt (n : Int64) (b : Bool) :
    (intFloat n == intFloat (boolInt b)) = (n == boolInt b) ∧
      (intFloat (boolInt b) == intFloat n) = (boolInt b == n) := by
  by_cases hn : 2 ≤ n.toInt.natAbs
  · obtain ⟨f, hf, hfloat⟩ := exists_large_intFloat hn
    have hne : n ≠ boolInt b := by
      rintro rfl
      cases b <;> exact absurd hn (by decide)
    rw [hfloat, (hf.compare_boolInt (by omega) b).1, (hf.compare_boolInt (by omega) b).2]
    exact ⟨(beq_eq_false_iff_ne.2 hne).symm, (beq_eq_false_iff_ne.2 hne.symm).symm⟩
  · have hcases : n = -1 ∨ n = 0 ∨ n = 1 := by
      have hminus : (-1 : Int64).toInt = -1 := rfl
      have hzero : (0 : Int64).toInt = 0 := rfl
      have hone : (1 : Int64).toInt = 1 := rfl
      rw [← Int64.toInt_inj, ← Int64.toInt_inj, ← Int64.toInt_inj]
      omega
    rcases hcases with rfl | rfl | rfl <;> cases b <;> decide +kernel

end TemplateCompiler.Value
