import Mathlib.Algebra.Order.Field.Power
import Mathlib.Data.Rat.Floor
import Mathlib.Tactic.FieldSimp
import Mathlib.Tactic.Linarith
import Chronicle.Proofs.Rounding

/-!
# The values of numbers

Numbers of the binary format and decimals stand for rational numbers. The operations that do not round are read off
the values: a number is an integer exactly if its value is one, and it is rounded up to the least integer that is not
below its value. Integers below `2 ^ 53` are values of the format.
-/

namespace Chronicle

theorem cast_twoTo (k : Nat) : (twoTo k : ℚ) = 2 ^ k := Nat.cast_pow 2 k

theorem cast_tenTo (k : Nat) : (tenTo k : ℚ) = 10 ^ k := Nat.cast_pow 10 k

/-- A power is a quotient of two powers with natural exponents, one of which is zero. -/
theorem pow_toNat_div {b : ℚ} (hb : b ≠ 0) (e : Int) : b ^ e.toNat / b ^ (-e).toNat = b ^ e := by
  rw [← zpow_natCast, ← zpow_natCast, ← zpow_sub₀ hb]
  exact congrArg (b ^ ·) (by omega)

/-- The number with a magnitude and a sign. -/
def withSign (neg : Bool) (q : ℚ) : ℚ := if neg then -q else q

section Signs

variable {neg neg' : Bool} {q r : ℚ}

theorem withSign_zero (neg : Bool) : withSign neg 0 = 0 := by cases neg <;> simp [withSign]

theorem withSign_mul (neg : Bool) (q r : ℚ) : withSign neg (q * r) = withSign neg q * r := by
  cases neg <;> simp [withSign]

theorem abs_withSign (neg : Bool) (h : 0 ≤ q) : |withSign neg q| = q := by
  cases neg <;> simp [withSign, abs_of_nonneg h]

theorem withSign_inj : withSign neg q = withSign neg r ↔ q = r := by cases neg <;> simp [withSign]

theorem abs_withSign_sub (neg : Bool) (q r : ℚ) : |withSign neg q - withSign neg r| = |q - r| := by
  cases neg
  · rfl
  · simp only [withSign, if_true, neg_sub_neg]
    exact abs_sub_comm r q

theorem abs_withSign_not_sub (neg : Bool) (hq : 0 ≤ q) (hr : 0 ≤ r) :
    |withSign (!neg) q - withSign neg r| = q + r := by
  cases neg
  · simp only [withSign, Bool.not_false, if_true, Bool.false_eq_true, if_false]
    rw [← neg_add', abs_neg, abs_of_nonneg (add_nonneg hq hr)]
  · simp only [withSign, Bool.not_true, if_true, Bool.false_eq_true, if_false]
    rw [sub_neg_eq_add, abs_of_nonneg (add_nonneg hq hr)]

/-- Magnitudes are no further apart than the numbers. -/
theorem abs_sub_le_withSign (hq : 0 ≤ q) (hr : 0 ≤ r) : |q - r| ≤ |withSign neg q - withSign neg' r| := by
  have h := abs_abs_sub_abs_le (withSign neg q) (withSign neg' r)
  rwa [abs_withSign neg hq, abs_withSign neg' hr] at h

end Signs

theorem withSign_natAbs (n : Int) : withSign (decide (n < 0)) n.natAbs = n := by
  rw [Nat.cast_natAbs, Int.cast_abs]
  by_cases h : n < 0
  · have hcast : (n : ℚ) ≤ 0 := by exact_mod_cast h.le
    simp [withSign, h, abs_of_nonpos hcast]
  · have hcast : (0 : ℚ) ≤ n := by exact_mod_cast not_lt.mp h
    simp [withSign, h, abs_of_nonneg hcast]

namespace Binary64

variable {x : Binary64} {n : Int}

/-- The magnitude that a number stands for. -/
def magnitude (x : Binary64) : ℚ := x.mant * 2 ^ x.exp

/-- The rational number that a number of the format stands for. -/
def value (x : Binary64) : ℚ := withSign x.neg x.magnitude

/-- An integer counted in units, as the ratio that is rounded. -/
theorem ratio_mul_unit (m : Nat) (e : Int) :
    ((m * twoTo e.toNat : Nat) : ℚ) / (twoTo (-e).toNat : Nat) = m * 2 ^ e := by
  rw [Nat.cast_mul, cast_twoTo, cast_twoTo, mul_div_assoc, pow_toNat_div two_ne_zero]

/-- A quotient of two numbers, as the ratio that is rounded. -/
theorem ratio_div (x y : Binary64) : ((x.mant * twoTo (x.exp - y.exp).toNat : Nat) : ℚ) /
    (y.mant * twoTo (y.exp - x.exp).toNat : Nat) = x.magnitude / y.magnitude := by
  have hpow := pow_toNat_div two_ne_zero (x.exp - y.exp)
  rw [neg_sub] at hpow
  rw [Nat.cast_mul, Nat.cast_mul, cast_twoTo, cast_twoTo, mul_div_mul_comm, hpow, zpow_sub₀ two_ne_zero,
    ← mul_div_mul_comm, magnitude, magnitude]

theorem magnitude_nonneg (x : Binary64) : 0 ≤ x.magnitude := by
  unfold magnitude
  positivity

theorem value_eq_signed (x : Binary64) : x.value = x.signed * 2 ^ x.exp := by
  rw [value, magnitude, withSign_mul, signed, withSign]
  cases x.neg <;> simp

theorem value_zero (neg : Bool) : (zero neg).value = 0 := by
  simp [value, magnitude, zero, withSign_zero]

theorem value_of_nonneg (h : 0 ≤ x.exp) : x.value = (x.signed * twoTo x.exp.toNat : Int) := by
  have hpow := pow_toNat_div two_ne_zero x.exp
  have hzero : (-x.exp).toNat = 0 := by omega
  rw [hzero, pow_zero, div_one] at hpow
  rw [value_eq_signed, Int.cast_mul, Int.cast_natCast, cast_twoTo, hpow]

theorem value_of_neg (h : ¬0 ≤ x.exp) : x.value = x.signed / twoTo (-x.exp).toNat := by
  have hpow := pow_toNat_div two_ne_zero x.exp
  have hzero : x.exp.toNat = 0 := by omega
  rw [hzero, pow_zero] at hpow
  rw [value_eq_signed, cast_twoTo, ← hpow, mul_one_div]

/-- A number is an integer exactly if its value is that integer. -/
theorem toInt?_eq_some_iff : x.toInt? = some n ↔ x.value = n := by
  have hpos : 0 < (twoTo (-x.exp).toNat : Int) := Int.natCast_pos.mpr (twoTo_pos _)
  unfold toInt?
  by_cases h : 0 ≤ x.exp
  · rw [if_pos h, value_of_nonneg h, Option.some.injEq, Int.cast_inj]
  · rw [if_neg h, value_of_neg h, div_eq_iff (by exact_mod_cast hpos.ne')]
    have hdvd : x.mant % twoTo (-x.exp).toNat = 0 ↔ (twoTo (-x.exp).toNat : Int) ∣ x.signed := by
      rw [← Nat.dvd_iff_mod_eq_zero, ← Int.natCast_dvd_natCast, signed]
      split
      · rw [dvd_neg]
      · rfl
    rw [Option.ite_none_right_eq_some, Option.some.injEq, hdvd]
    have hcast : (x.signed : ℚ) = n * (twoTo (-x.exp).toNat : ℚ) ↔ x.signed = n * twoTo (-x.exp).toNat := by
      exact_mod_cast Iff.rfl
    rw [hcast]
    constructor
    · rintro ⟨hd, rfl⟩
      exact (Int.ediv_mul_cancel hd).symm
    · intro he
      rw [he]
      exact ⟨Dvd.intro_left n rfl, Int.mul_ediv_cancel n hpos.ne'⟩

/-- Rounding up gives the ceiling of the value. -/
theorem ceil_eq (x : Binary64) : x.ceil = ⌈x.value⌉ := by
  unfold ceil
  by_cases h : 0 ≤ x.exp
  · rw [if_pos h, value_of_nonneg h, Int.ceil_intCast]
  · rw [if_neg h, value_of_neg h, Rat.ceil_intCast_div_natCast]

/-- A significand of up to 53 bits, shifted to the left, is a number of the format, with either sign. -/
theorem exists_magnitude {m j : Nat} (hlt : m < twoTo 53) (hj : j ≤ 971) (neg : Bool) :
    ∃ y : Binary64, y.neg = neg ∧ y.magnitude = m * 2 ^ j := by
  by_cases hm : m = 0
  · exact ⟨zero neg, rfl, by simp [magnitude, zero, hm]⟩
  have hlog : m.log2 ≤ 52 := Nat.le_of_lt_succ ((Nat.log2_lt hm).mpr hlt)
  obtain ⟨k, hk⟩ := Nat.exists_eq_add_of_le hlog
  have hlow : twoTo 52 ≤ m * twoTo k := by
    rw [hk, twoTo_add]
    exact Nat.mul_le_mul_right _ (twoTo_log2_le hm)
  have hhigh : m * twoTo k < twoTo 53 := by
    have hpow : twoTo (m.log2 + 1) * twoTo k = twoTo 53 := by
      rw [← twoTo_add]
      exact congrArg twoTo (by omega)
    rw [← hpow]
    exact Nat.mul_lt_mul_of_pos_right (lt_twoTo_log2 m) (twoTo_pos k)
  refine ⟨⟨neg, m * twoTo k, (j : Int) - k, hhigh, by omega, by omega, Or.inl hlow⟩, rfl, ?_⟩
  rw [magnitude, Nat.cast_mul, cast_twoTo, mul_assoc, ← zpow_natCast 2 k, ← zpow_add₀ two_ne_zero,
    add_sub_cancel, zpow_natCast]

/-- Natural numbers below `2 ^ 53` are values of the format, with either sign. -/
theorem exists_value_natCast {m : Nat} (hlt : m < twoTo 53) (neg : Bool) :
    ∃ y : Binary64, y.value = withSign neg m := by
  obtain ⟨y, rfl, hy⟩ := exists_magnitude hlt (Nat.zero_le 971) neg
  exact ⟨y, by rw [value, hy, pow_zero, mul_one]⟩

/-- The powers of two of the format, with either sign. -/
theorem exists_value_pow {k : Nat} (hk : k ≤ 1023) (neg : Bool) :
    ∃ y : Binary64, y.value = withSign neg (2 ^ k) := by
  have hlow : twoTo 52 < twoTo 53 := by decide
  have hexp : ((52 : Nat) : Int) + (k - 52) = k := by omega
  refine ⟨⟨neg, twoTo 52, (k : Int) - 52, hlow, by omega, by omega, Or.inl le_rfl⟩, ?_⟩
  rw [value, withSign_inj, magnitude, cast_twoTo, ← zpow_natCast, ← zpow_natCast, ← zpow_add₀ two_ne_zero, hexp]

theorem exists_value_intCast (h : n.natAbs < twoTo 53) : ∃ y : Binary64, y.value = n := by
  rw [← withSign_natAbs]
  exact exists_value_natCast h _

end Binary64

namespace Decimal

/-- The rational number that a decimal stands for. -/
def value (d : Decimal) : ℚ := withSign d.neg (d.coeff * 10 ^ d.exp)

theorem value_intCast (n : Int) : (Decimal.mk (decide (n < 0)) n.natAbs 0).value = n := by
  rw [value, zpow_zero, mul_one, withSign_natAbs]

theorem ratio_eq (d : Decimal) : (d.ratio.1 : ℚ) / d.ratio.2 = d.coeff * 10 ^ d.exp := by
  rw [ratio, Nat.cast_mul, cast_tenTo, cast_tenTo, mul_div_assoc, pow_toNat_div (by norm_num)]

end Decimal

end Chronicle
