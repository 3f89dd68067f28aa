import Chronicle.Number.Reading
import Chronicle.Proofs.NearestNumbers
import Chronicle.Proofs.ShortestDecimals

/-!
# What is rounded

Integers, decimals, sums, products and quotients are rounded correctly, and they are too large for the format exactly
if their magnitude reaches the bound. In particular integers below `2 ^ 53` are kept, and so are sums that are such integers.
-/

namespace Chronicle

namespace Decimal

variable {d : Decimal} {x : Binary64}

theorem abs_value (d : Decimal) : |d.value| = d.coeff * 10 ^ d.exp := abs_withSign d.neg (by positivity)

theorem value_of_coeff (h : d.coeff = 0) : d.value = 0 := by rw [value, h, Nat.cast_zero, zero_mul, withSign_zero]

theorem value_eq_ratio (d : Decimal) : d.value = withSign d.neg (d.ratio.1 / d.ratio.2) := by rw [ratio_eq, value]

/-- A decimal lies between the powers of ten that its digits and its exponent give. -/
theorem abs_value_bounds (hc : d.coeff ≠ 0) : (10 : ℚ) ^ (d.exp + d.digits.length - 1) ≤ |d.value| ∧
    |d.value| < (10 : ℚ) ^ (d.exp + d.digits.length) := by
  obtain ⟨k, hk⟩ : ∃ k, d.digits.length = k + 1 :=
    Nat.exists_eq_succ_of_ne_zero (List.length_pos_iff.mpr d.digits_ne_nil).ne'
  have hlow : tenTo k ≤ d.coeff := by
    by_cases hz : k = 0
    · rw [hz]
      exact Nat.pos_of_ne_zero hc
    · apply Nat.le_of_not_lt
      intro hlt
      have hlength := (length_toDigits_le_iff (Nat.pos_of_ne_zero hz)).mpr hlt
      rw [← digits, hk] at hlength
      omega
  have hhigh : d.coeff < tenTo (k + 1) := (length_toDigits_le_iff (Nat.succ_pos k)).mp hk.le
  have hpos : (0 : ℚ) < 10 ^ d.exp := by positivity
  rw [abs_value, hk]
  constructor
  · have hexp : d.exp + (k + 1 : Nat) - 1 = k + d.exp := by omega
    rw [hexp, zpow_add₀ (by norm_num), zpow_natCast, ← cast_tenTo]
    exact mul_le_mul_of_nonneg_right (Nat.cast_le.mpr hlow) hpos.le
  · rw [add_comm, zpow_add₀ (by norm_num), zpow_natCast, ← cast_tenTo]
    exact mul_lt_mul_of_pos_right (Nat.cast_lt.mpr hhigh) hpos

/-- A decimal with a digit so far in front of the point is too large. -/
theorem overflowBound_le (hc : d.coeff ≠ 0) (h : 311 ≤ d.exp + d.digits.length) :
    Binary64.overflowBound ≤ |d.value| := by
  have hpow : (twoTo 1024 : ℚ) ≤ tenTo 310 := Nat.cast_le.mpr (by decide +kernel)
  calc Binary64.overflowBound ≤ 2 ^ 1024 := sub_le_self _ (by positivity)
    _ ≤ (10 : ℚ) ^ (310 : Nat) := by rwa [cast_twoTo, cast_tenTo] at hpow
    _ ≤ (10 : ℚ) ^ (d.exp + d.digits.length - 1) := by
        rw [← zpow_natCast]
        exact zpow_le_zpow_right₀ (by norm_num) (by omega)
    _ ≤ |d.value| := (abs_value_bounds hc).1

/-- A decimal whose digits begin so far behind the point is below half of the least number. -/
theorem abs_value_lt (hc : d.coeff ≠ 0) (h : d.exp + d.digits.length ≤ -330) : 2 * |d.value| < 2 ^ (-1074 : Int) := by
  have hpow : (twoTo 1075 : ℚ) ≤ tenTo 330 := Nat.cast_le.mpr (by decide +kernel)
  have hten : (10 : ℚ) ^ (-330 : Int) ≤ 2 ^ (-1075 : Int) := by
    rw [cast_twoTo, cast_tenTo] at hpow
    rw [zpow_neg, zpow_neg, zpow_ofNat, zpow_ofNat]
    exact inv_anti₀ (by positivity) hpow
  calc 2 * |d.value| < 2 * (10 : ℚ) ^ (d.exp + d.digits.length) :=
        mul_lt_mul_of_pos_left (abs_value_bounds hc).2 two_pos
    _ ≤ 2 * (10 : ℚ) ^ (-330 : Int) := mul_le_mul_of_nonneg_left (zpow_le_zpow_right₀ (by norm_num) h) zero_le_two
    _ ≤ 2 * 2 ^ (-1075 : Int) := mul_le_mul_of_nonneg_left hten zero_le_two
    _ = 2 ^ (-1074 : Int) := (zpow_one_add₀ two_ne_zero _).symm

end Decimal

namespace Binary64

variable {x y : Binary64} {q : ℚ}

theorem le_magnitude (hx : x.mant ≠ 0) : (2 : ℚ) ^ (-1074 : Int) ≤ x.magnitude := by
  have hone : (1 : ℚ) ≤ x.mant := Nat.one_le_cast.mpr (Nat.pos_of_ne_zero hx)
  calc (2 : ℚ) ^ (-1074 : Int) ≤ 2 ^ x.exp := zpow_le_zpow_right₀ one_le_two x.canonical.2.1
    _ ≤ x.magnitude := le_mul_of_one_le_left (by positivity) hone

/-- What is below half of the least number is rounded to zero. -/
theorem CorrectlyRounded.tiny (h : 2 * |q| < 2 ^ (-1074 : Int)) (neg : Bool) :
    CorrectlyRounded q (.finite (.zero neg)) := by
  constructor
  · rintro x hx
    rw [← Rounded.finite.inj hx]
    refine ⟨fun y => ?_, fun _ _ _ => rfl⟩
    rw [value_zero, zero_sub, abs_neg]
    by_cases hy : y.mant = 0
    · rw [eq_zero_of_mant hy, value_zero, zero_sub, abs_neg]
    · have hle := le_magnitude hy
      have hfar := abs_sub_abs_le_abs_sub y.value q
      rw [value, abs_withSign _ y.magnitude_nonneg, ← value] at hfar
      linarith
  · have hone : (2 : ℚ) ^ (-1074 : Int) ≤ 2 ^ 0 := zpow_le_one_of_nonpos₀ one_le_two (by decide)
    have hbound := pow_le_overflowBound (Nat.zero_le 1023)
    exact iff_of_true ⟨_, rfl⟩ (by linarith [abs_nonneg q])

theorem CorrectlyRounded.overflow (h : overflowBound ≤ |q|) (neg : Bool) : CorrectlyRounded q (.overflow neg) where
  nearest _ hx := absurd hx (by simp)
  finite_iff := iff_of_false (fun ⟨_, hx⟩ => absurd hx (by simp)) (not_lt.mpr h)

end Binary64

namespace Decimal

variable {d : Decimal} {x : Binary64}

/-- A decimal is rounded correctly. -/
theorem correctlyRounded_round (d : Decimal) : Binary64.CorrectlyRounded d.value d.round := by
  by_cases hc : d.coeff = 0
  · rw [round, if_pos hc, value_of_coeff hc]
    exact .zero d.neg
  · rw [round, if_neg hc]
    simp only
    split
    · next hhigh => exact .overflow (overflowBound_le hc hhigh) d.neg
    · split
      · next hlow => exact .tiny (abs_value_lt hc hlow) d.neg
      · rw [value_eq_ratio]
        exact Binary64.correctlyRounded_roundRatio d.neg _ (tenTo_pos _)

end Decimal

namespace Binary64

variable {x y z : Binary64} {q : ℚ} {n : Int} {r : Rounded}

theorem correctlyRounded_ofInt (n : Int) : CorrectlyRounded n (ofInt n) := by
  have h := correctlyRounded_roundRatio (decide (n < 0)) n.natAbs Nat.one_pos
  rwa [Nat.cast_one, div_one, withSign_natAbs] at h

theorem correctlyRounded_roundScaled (neg : Bool) (m : Nat) (e : Int) :
    CorrectlyRounded (withSign neg (m * 2 ^ e)) (roundScaled neg m e) := by
  have h := correctlyRounded_roundRatio neg (m * twoTo e.toNat) (twoTo_pos (-e).toNat)
  rwa [ratio_mul_unit] at h

/-- A number counted in a smaller unit. -/
theorem signed_mul_unit {e : Int} (h : e ≤ x.exp) : (x.signed * twoTo (x.exp - e).toNat : Int) * 2 ^ e = x.value := by
  have hexp : ((x.exp - e).toNat : Int) + e = x.exp := by omega
  rw [value_eq_signed, Int.cast_mul, Int.cast_natCast, cast_twoTo, ← zpow_natCast, mul_assoc,
    ← zpow_add₀ two_ne_zero, hexp]

/-- A sum is rounded correctly. -/
theorem correctlyRounded_add (x y : Binary64) : CorrectlyRounded (x.value + y.value) (x.add y) := by
  rw [← signed_mul_unit (min_le_left x.exp y.exp), ← signed_mul_unit (min_le_right x.exp y.exp), ← add_mul,
    ← Int.cast_add]
  unfold add
  simp only
  split
  · next h =>
    rw [h, Int.cast_zero, zero_mul]
    exact .zero _
  · rw [← withSign_natAbs, ← withSign_mul]
    exact correctlyRounded_roundScaled _ _ _

theorem withSign_bne_mul (neg neg' : Bool) (q r : ℚ) :
    withSign (neg != neg') (q * r) = withSign neg q * withSign neg' r := by
  cases neg <;> cases neg' <;> simp [withSign]

/-- A product is rounded correctly. -/
theorem correctlyRounded_mul (x y : Binary64) : CorrectlyRounded (x.value * y.value) (x.mul y) := by
  have h := correctlyRounded_roundScaled (x.neg != y.neg) (x.mant * y.mant) (x.exp + y.exp)
  rw [Nat.cast_mul, zpow_add₀ two_ne_zero, mul_mul_mul_comm, withSign_bne_mul] at h
  exact h

theorem inv_withSign (neg : Bool) (q : ℚ) : (withSign neg q)⁻¹ = withSign neg q⁻¹ := by
  cases neg <;> simp [withSign, inv_neg]

/-- A quotient by a number other than zero is rounded correctly. -/
theorem correctlyRounded_div (x : Binary64) (hy : y.mant ≠ 0) : CorrectlyRounded (x.value / y.value) (x.div y) := by
  have hd : 0 < y.mant * twoTo (y.exp - x.exp).toNat := Nat.mul_pos (Nat.pos_of_ne_zero hy) (twoTo_pos _)
  have h := correctlyRounded_roundRatio (x.neg != y.neg) (x.mant * twoTo (x.exp - y.exp).toNat) hd
  rw [ratio_div, div_eq_mul_inv, withSign_bne_mul, ← inv_withSign, ← div_eq_mul_inv] at h
  exact h

theorem abs_intCast (n : Int) : |(n : ℚ)| = n.natAbs := by rw [Nat.cast_natAbs, Int.cast_abs]

/-- Integers are rounded to numbers of the format, as long as they are not too large. -/
theorem CorrectlyRounded.exists_finite {k : Nat} (h : CorrectlyRounded n r) (hk : k ≤ 1023) (hn : n.natAbs < twoTo k) :
    ∃ x, r = .finite x := by
  have hlt : (n.natAbs : ℚ) < 2 ^ k := by
    rw [← cast_twoTo]
    exact Nat.cast_lt.mpr hn
  rw [h.finite_iff, abs_intCast]
  exact hlt.trans_le (pow_le_overflowBound hk)

/-- An integer below `2 ^ 53` is kept, as an integer. -/
theorem CorrectlyRounded.exists_int (h : CorrectlyRounded n r) (hn : n.natAbs < twoTo 53) :
    ∃ x, r = .finite x ∧ x.value = n ∧ Num.ofBinary64 x = .int n := by
  obtain ⟨x, hx⟩ := h.exists_finite (by decide) hn
  obtain ⟨y, hy⟩ := exists_value_intCast hn
  have hvalue := (h.nearest x hx).value_eq hy
  refine ⟨x, hx, hvalue, ?_⟩
  simp only [Num.ofBinary64, toInt?_eq_some_iff.mpr hvalue, if_pos hn]

theorem ofBinary64_eq_float (h : 2 ^ 53 ≤ |x.value|) : Num.ofBinary64 x = .float x := by
  unfold Num.ofBinary64
  split
  · next k hk =>
    rw [toInt?_eq_some_iff.mp hk, abs_intCast, ← cast_twoTo] at h
    exact if_neg (Nat.not_lt.mpr (Nat.cast_le.mp h))
  · rfl

/-- A number does not come below a power of two by rounding. -/
theorem IsNearest.pow_le_abs {k : Nat} (hk : k ≤ 1023) (h : x.IsNearest q) (hq : 2 ^ k ≤ |q|) : 2 ^ k ≤ |x.value| := by
  rcases le_abs.mp hq with hq | hq
  · obtain ⟨y, hy⟩ := exists_value_pow hk false
    have hle := h.le_value (y := y) (hy.trans_le hq)
    exact le_abs.mpr (Or.inl (hy.symm.trans_le hle))
  · obtain ⟨y, hy⟩ := exists_value_pow hk true
    have hle := h.value_le (y := y) ((le_neg_of_le_neg hq).trans_eq hy.symm)
    exact le_abs.mpr (Or.inr (le_neg_of_le_neg (hle.trans_eq hy)))

end Binary64

end Chronicle
