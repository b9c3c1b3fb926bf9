import Mathlib
import FeedFiler.Json.Basic

/-!
# Whole numbers as doubles

The double that is nearest to a whole number of 64 bits is finite. Rounding a number of so many bits
leaves an exponent that is far from the greatest.
-/

namespace Float.Model.UnpackedFloat

/-! ## Rounding -/

theorem mantissa_shiftRight_le (em : ExtendedMantissa) (n : Nat) : (em >>> n).mantissa ≤ em.mantissa := by
  show (n.repeat ExtendedMantissa.shiftRightOne em).mantissa ≤ em.mantissa
  induction n with
  | zero => exact Nat.le_refl _
  | succ n ih => exact Nat.le_trans (Nat.div_le_self _ 2) ih

theorem roundedMantissa_le (em : ExtendedMantissa) : em.roundedMantissa ≤ em.mantissa + 1 := by
  have := Nat.mod_lt em.mantissa (Nat.succ_pos 1)
  rw [ExtendedMantissa.roundedMantissa, Accuracy.roundToNearestEven.eq_def]
  split <;> omega

theorem log2_le_of_lt {m bits : Nat} (h : m < 2 ^ bits) : m.log2 ≤ bits := by
  by_cases hm : m = 0
  · rw [hm]
    exact Nat.zero_le _
  · exact Nat.le_of_lt ((Nat.log2_lt hm).2 h)

/-- A mantissa of some bits is shifted to one that is no greater, and to an exponent that is bounded by the
number of the bits. -/
theorem shiftToTargetExponent_le {mantissa bits : Nat} (hm : mantissa < 2 ^ bits) (exponent : Int) :
    (shiftToTargetExponent Format.binary64 mantissa exponent .exact).1.mantissa ≤ mantissa ∧
      (shiftToTargetExponent Format.binary64 mantissa exponent .exact).2 ≤
        max exponent (max (bits + exponent) (-1074)) := by
  have hlog := log2_le_of_lt hm
  constructor
  · exact mantissa_shiftRight_le _ _
  · simp only [shiftToTargetExponent, shiftToExponent, Format.targetExponent, totalExponent,
      Format.mantissaBits, Format.minExponent]
    omega

/-- A number of some bits is rounded to one whose exponent is bounded by twice the number of the bits. -/
theorem roundWithAccuracy_cases (sign : Sign) {mantissa bits : Nat} (hm : mantissa < 2 ^ bits)
    (exponent : Int) :
    roundWithAccuracy Format.binary64 sign mantissa exponent .exact = .zero sign ∨
      ∃ m e h, roundWithAccuracy Format.binary64 sign mantissa exponent .exact = .finite sign m e h ∧
        e ≤ max (2 * bits + 1 + exponent) (bits - 1073) := by
  obtain ⟨hm₁, he₁⟩ := shiftToTargetExponent_le hm exponent
  rw [roundWithAccuracy]
  generalize shiftToTargetExponent Format.binary64 mantissa exponent .exact = first at *
  obtain ⟨em, e₁⟩ := first
  simp only at hm₁ he₁
  have hr : em.roundedMantissa < 2 ^ (bits + 1) := by
    have := roundedMantissa_le em
    rw [Nat.pow_succ]
    omega
  obtain ⟨-, he₂⟩ := shiftToTargetExponent_le hr e₁
  simp only
  generalize shiftToTargetExponent Format.binary64 em.roundedMantissa e₁ .exact = second at *
  obtain ⟨em₂, e₂⟩ := second
  simp only at *
  split
  · exact .inl rfl
  · next hne =>
      refine .inr ⟨_, _, Nat.pos_of_ne_zero hne, rfl, ?_⟩
      omega

/-! ## Packing -/

theorem isFinite_unpack {exponent : BitVec Format.binary64.exponentBits} (h : exponent ≠ -1#_) (sign : Sign)
    (mantissa : BitVec Format.binary64.mantissaBitsWithoutImplicit) :
    (unpack Format.binary64 (packComponents Format.binary64 sign exponent mantissa)).isFinite = true := by
  simp only [unpack, unpackExponent_packComponents, if_neg h]
  split
  · split <;> rfl
  · rfl

/-- A number whose exponent is not too great is packed as a finite one. -/
theorem isFinite_unpack_pack {sign : Sign} {mantissa : Nat} {exponent : Int} (h : 0 < mantissa)
    (he : exponent < 900) :
    (unpack Format.binary64 (pack Format.binary64 (.finite sign mantissa exponent h))).isFinite = true := by
  have hbias : (exponent + (1023 : Nat) + (52 : Nat)).toNat < 2047 := by omega
  rw [pack]
  simp only
  split
  · next hlarge =>
      change 2048 ≤ (exponent + (1023 : Nat) + (52 : Nat)).toNat + 1 at hlarge
      omega
  · split
    · refine isFinite_unpack (fun heq => ?_) _ _
      have hall := congrArg BitVec.toNat heq
      rw [BitVec.toNat_ofNat] at hall
      change (exponent + (1023 : Nat) + (52 : Nat)).toNat % 2048 = 2047 at hall
      omega
    · exact isFinite_unpack (by decide) _ _

end Float.Model.UnpackedFloat

namespace FeedFiler

open Float.Model Float.Model.UnpackedFloat

/-- The double nearest to a whole number of at most 64 bits is finite. -/
theorem isFinite_ofNat {n : Nat} (h : n < 2 ^ 64) (hlarge : 2 ^ 53 ≤ n) : (Float.ofNat n).isFinite = true := by
  have hne : n ≠ 0 := by omega
  have hslow : ¬ (n < 2 ^ 53 ∧ 0 ≤ 22) := by omega
  show (Float.ofScientific n false 0).isFinite = true
  rw [Float.ofScientific, dif_neg hslow]
  show (unpack Format.binary64
    (pack Format.binary64 (UnpackedFloat.ofScientific Format.binary64 n 0))).isFinite = true
  have hzero : ¬ (0 : Int) > 2 ^ Format.binary64.exponentBits := by decide
  have hsmall : ¬ (0 : Int) < -((2 ^ Format.binary64.exponentBits : Int) + n.log2) := by
    have : (0 : Int) < 2 ^ Format.binary64.exponentBits := by decide
    omega
  rw [UnpackedFloat.ofScientific, dif_neg hne, if_neg hzero, if_neg hsmall, if_pos (Int.le_refl 0),
    UnpackedFloat.mul]
  have hbits : n <<< Format.binary64.mantissaBits * 10 ^ (0 : Int).toNat < 2 ^ 117 := by
    have : Format.binary64.mantissaBits = 53 := by decide
    rw [this, Nat.shiftLeft_eq]
    simp only [Int.toNat_zero, Nat.pow_zero, Nat.mul_one]
    omega
  rcases roundWithAccuracy_cases (.positive * .positive) hbits (-Format.binary64.mantissaBits + 0) with
    hround | ⟨m, e, hm, hround, he⟩
  · rw [hround]
    decide
  · rw [hround]
    refine isFinite_unpack_pack hm ?_
    omega

/-- A number that is no signed integer of 64 bits has a finite double. -/
theorem Number.isFinite_toFloat {n : Number} (h : n.toInt64? = none) : n.toFloat.isFinite = true := by
  cases n with
  | float x finite => exact finite
  | whole w =>
      obtain ⟨val, lower, upper⟩ := w
      have hlarge : 9223372036854775807 < val := by
        simp only [toInt64?, WholeNumber.toInt64?, int64OfInt?, ite_eq_right_iff, reduceCtorEq,
          imp_false] at h
        omega
      obtain ⟨k, rfl⟩ := Int.eq_ofNat_of_zero_le (Int.le_trans (by decide) (Int.le_of_lt hlarge))
      exact isFinite_ofNat (by omega) (by omega)

end FeedFiler
