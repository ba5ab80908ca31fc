import TemplateCompiler.Decimal.Layout

/-! # The sign of a decimal

A decimal has no sign, so the double nearest to it has its sign bit clear (`toFloat_unsigned`).
Reading goes through products and quotients of doubles, and these keep the bit clear: a product
or a quotient of numbers that are not negative is not negative, however it is rounded.
-/

namespace TemplateCompiler.Decimal

open Float.Model

/-! ## 1. Numbers before packing -/

/-- No negative sign.  What is no number has no sign at all. -/
def Unsigned : UnpackedFloat → Prop
  | .infinity s | .zero s | .finite s _ _ _ => s = .positive
  | .notANumber => True

/-- A choice between two numbers without a negative sign. -/
theorem unsigned_dite {p : Prop} [Decidable p] {f : p → UnpackedFloat} {g : ¬p → UnpackedFloat}
    (hf : ∀ h, Unsigned (f h)) (hg : ∀ h, Unsigned (g h)) : Unsigned (dite p f g) := by
  by_cases h : p
  · rw [dif_pos h]
    exact hf h
  · rw [dif_neg h]
    exact hg h

theorem unsigned_ite {p : Prop} [Decidable p] {a b : UnpackedFloat} (ha : Unsigned a)
    (hb : Unsigned b) : Unsigned (ite p a b) := by
  by_cases h : p
  · rwa [if_pos h]
  · rwa [if_neg h]

theorem unsigned_roundWithAccuracy (spec : Format) (m : Nat) (e : Int)
    (a : UnpackedFloat.Accuracy) :
    Unsigned (UnpackedFloat.roundWithAccuracy spec .positive m e a) := by
  unfold UnpackedFloat.roundWithAccuracy
  exact unsigned_dite (fun _ => rfl) fun _ => rfl

theorem Unsigned.mul {a b : UnpackedFloat} (spec : Format) (ha : Unsigned a) (hb : Unsigned b) :
    Unsigned (UnpackedFloat.mul spec a b) := by
  cases a <;> cases b <;> cases ha <;> cases hb
  case finite.finite => exact unsigned_roundWithAccuracy spec _ _ _
  all_goals first | exact rfl | exact trivial

theorem Unsigned.div {a b : UnpackedFloat} (spec : Format) (ha : Unsigned a) (hb : Unsigned b) :
    Unsigned (UnpackedFloat.div spec a b) := by
  cases a <;> cases b <;> cases ha <;> cases hb
  case finite.finite => exact unsigned_roundWithAccuracy spec _ _ _
  all_goals first | exact rfl | exact trivial

theorem unsigned_ofNat (spec : Format) (n : Nat) : Unsigned (UnpackedFloat.ofNat spec n) := by
  unfold UnpackedFloat.ofNat UnpackedFloat.ofInt UnpackedFloat.normalize
  split
  · rename_i h
    rw [Int.compare_eq_lt] at h
    omega
  · rfl
  · exact unsigned_roundWithAccuracy spec _ _ _

theorem unsigned_ofScientific (spec : Format) (m : Nat) (e : Int) :
    Unsigned (UnpackedFloat.ofScientific spec m e) := by
  unfold UnpackedFloat.ofScientific
  refine unsigned_dite (fun _ => rfl) fun _ => ?_
  refine unsigned_ite rfl (unsigned_ite rfl ?_)
  exact unsigned_ite (Unsigned.mul spec rfl rfl) (Unsigned.div spec rfl rfl)

/-! ## 2. Packed numbers -/

theorem msb_packComponents (e : BitVec Format.binary64.exponentBits)
    (m : BitVec Format.binary64.mantissaBitsWithoutImplicit) :
    (UnpackedFloat.packComponents Format.binary64 .positive e m).msb = false := by
  have h (e : BitVec 11) (m : BitVec 52) : (0#1 ++ e ++ m).msb = false := by
    rw [BitVec.msb_append, BitVec.msb_append]
    rfl
  exact h e m

/-- Packing puts the sign into the first bit. -/
theorem Unsigned.msb_pack {f : UnpackedFloat} (h : Unsigned f) :
    (UnpackedFloat.pack Format.binary64 f).msb = false := by
  unfold UnpackedFloat.pack
  cases f with
  | notANumber => exact msb_packComponents _ _
  | infinity s =>
    obtain rfl : s = .positive := h
    exact msb_packComponents _ _
  | zero s =>
    obtain rfl : s = .positive := h
    exact msb_packComponents _ _
  | finite s m e hm =>
    obtain rfl : s = .positive := h
    dsimp only
    split
    · exact msb_packComponents _ _
    split
    · exact msb_packComponents _ _
    · exact msb_packComponents _ _

/-- Unpacking takes the sign from the first bit. -/
theorem unsigned_unpack {b : BitVec Format.binary64.numBits} (h : b.msb = false) :
    Unsigned (UnpackedFloat.unpack Format.binary64 b) := by
  have hsign : UnpackedFloat.Sign.ofBitVec (UnpackedFloat.unpackSign b) = .positive := by
    have hzero : UnpackedFloat.unpackSign b = 0#1 := by
      ext i hi
      obtain rfl : i = 0 := by omega
      delta UnpackedFloat.unpackSign
      simpa [BitVec.msb_eq_getLsbD_last] using h
    rw [hzero]
    rfl
  unfold UnpackedFloat.unpack
  exact unsigned_ite (unsigned_ite hsign trivial)
    (unsigned_ite (unsigned_dite (fun _ => hsign) fun _ => hsign) hsign)

/-! ## 3. Doubles -/

/-- A double whose sign bit is clear. -/
def IsUnsigned (x : Float) : Prop := x.toBits.toBitVec.msb = false

theorem IsUnsigned.toNat_lt {x : Float} (h : IsUnsigned x) : x.toBits.toNat < signWeight := by
  have hlt := BitVec.msb_eq_false_iff_two_mul_lt.1 h
  have hs : signWeight = 2 ^ 63 := rfl
  change 2 * x.toBits.toNat < 2 ^ 64 at hlt
  rw [hs]
  omega

theorem isUnsigned_ofModel_pack {f : UnpackedFloat} (h : Unsigned f) :
    IsUnsigned (.ofModel (Float.Model.pack f)) :=
  h.msb_pack

theorem IsUnsigned.mul {x y : Float} (hx : IsUnsigned x) (hy : IsUnsigned y) :
    IsUnsigned (x * y) :=
  isUnsigned_ofModel_pack (Unsigned.mul _ (unsigned_unpack hx) (unsigned_unpack hy))

theorem IsUnsigned.div {x y : Float} (hx : IsUnsigned x) (hy : IsUnsigned y) :
    IsUnsigned (x / y) :=
  isUnsigned_ofModel_pack (Unsigned.div _ (unsigned_unpack hx) (unsigned_unpack hy))

theorem isUnsigned_ofBits {a : UInt64} (h : a.toBitVec.msb = false) :
    IsUnsigned (Float.ofBits a) :=
  isUnsigned_ofModel_pack (unsigned_unpack h)

/-- The powers of ten that are doubles are not negative. -/
theorem isUnsigned_powerOfTen {x : Float} (hx : x ∈ Float.exactlyRepresentablePowersOfTen) :
    IsUnsigned x := by
  have hall : ∀ x ∈ Float.exactlyRepresentablePowersOfTen.toList, IsUnsigned x := by
    unfold Float.exactlyRepresentablePowersOfTen
    simp only [List.forall_mem_cons, List.not_mem_nil, false_imp_iff, implies_true, and_true]
    refine ⟨?_, ?_, ?_, ?_, ?_, ?_, ?_, ?_, ?_, ?_, ?_, ?_, ?_, ?_, ?_, ?_, ?_, ?_, ?_, ?_, ?_, ?_,
      ?_⟩ <;> exact isUnsigned_ofBits (by decide)
  exact hall x (Array.mem_def.1 hx)

theorem isUnsigned_ofScientific (m : Nat) (s : Bool) (e : Nat) :
    IsUnsigned (Float.ofScientific m s e) := by
  unfold Float.ofScientific
  split
  · have hm : IsUnsigned m.toUInt64.toFloat := isUnsigned_ofModel_pack (unsigned_ofNat _ _)
    dsimp only
    split
    · exact hm.div (isUnsigned_powerOfTen (Array.getElem_mem _))
    · exact hm.mul (isUnsigned_powerOfTen (Array.getElem_mem _))
  · exact isUnsigned_ofModel_pack (unsigned_ofScientific _ _ _)

/-- **The double nearest to a decimal has no negative sign.** -/
theorem toFloat_unsigned (d : Decimal) : IsUnsigned (toFloat d) := by
  unfold toFloat
  dsimp only
  split
  · exact isUnsigned_ofScientific _ _ _
  split
  · exact (isUnsigned_ofScientific _ _ _).div (isUnsigned_ofScientific _ _ _)
  split
  · exact isUnsigned_ofScientific _ _ _
  · exact isUnsigned_ofScientific _ _ _

end TemplateCompiler.Decimal
