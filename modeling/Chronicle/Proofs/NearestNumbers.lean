import Chronicle.Proofs.BinaryValues

/-!
# Correct rounding

What a ratio is rounded to is the number of the format that is nearest to it, and of two equally near ones the one with
an even significand. The ratio is too large exactly if it reaches the middle between the largest number and the next
power of two.
-/

namespace Chronicle

namespace Binary64

/-- A rational number is correctly rounded to `x`: no number is nearer, and if another is as near, the significand of
`x` is even. -/
structure IsNearest (x : Binary64) (q : ℚ) : Prop where
  le : ∀ y : Binary64, |x.value - q| ≤ |y.value - q|
  even : ∀ y : Binary64, y.value ≠ x.value → |y.value - q| = |x.value - q| → x.mant % 2 = 0

theorem isNearest_zero (neg : Bool) : (zero neg).IsNearest 0 where
  le y := by
    rw [value_zero, sub_zero, abs_zero]
    exact abs_nonneg _
  even _ _ _ := rfl

/-- A value of the format is rounded to itself. -/
theorem IsNearest.value_eq {x : Binary64} {q : ℚ} (h : x.IsNearest q) {y : Binary64} (hy : y.value = q) :
    x.value = q := by
  have hle := h.le y
  rw [hy, sub_self, abs_zero] at hle
  exact sub_eq_zero.mp (abs_eq_zero.mp (le_antisymm hle (abs_nonneg _)))

/-- Rounding does not cross a value of the format. -/
theorem IsNearest.le_value {x y : Binary64} {q : ℚ} (h : x.IsNearest q) (hy : y.value ≤ q) : y.value ≤ x.value := by
  by_contra hlt
  have hle := h.le y
  rw [abs_of_nonpos (by linarith), abs_of_nonpos (by linarith)] at hle
  linarith

theorem IsNearest.value_le {x y : Binary64} {q : ℚ} (h : x.IsNearest q) (hy : q ≤ y.value) : x.value ≤ y.value := by
  by_contra hlt
  have hle := h.le y
  rw [abs_of_nonneg (by linarith), abs_of_nonneg (by linarith)] at hle
  linarith

/-- The least magnitude that is too large for the format. -/
def overflowBound : ℚ := 2 ^ 1024 - 2 ^ 970

/-- A rational number is rounded correctly: to a nearest number of the format, unless its magnitude is too large. -/
structure CorrectlyRounded (q : ℚ) (r : Rounded) : Prop where
  nearest : ∀ x, r = .finite x → x.IsNearest q
  finite_iff : (∃ x, r = .finite x) ↔ |q| < overflowBound

/-- A number is rounded to the integer `m`, a half to an even one. -/
structure RoundsTo (r : ℚ) (m : Nat) : Prop where
  close : |m - r| ≤ 1 / 2
  even : |m - r| = 1 / 2 → m % 2 = 0

section Integers

variable {r : ℚ} {m : Nat}

theorem roundsTo_roundHalfEven (num : Nat) {den : Nat} (hd : 0 < den) :
    RoundsTo ((num : ℚ) / den) (roundHalfEven num den) := by
  have hden : (0 : ℚ) < den := Nat.cast_pos.mpr hd
  obtain ⟨f, hf⟩ : ∃ f : ℚ, f = (num % den : Nat) / den := ⟨_, rfl⟩
  have hsplit : (num : ℚ) / den = (num / den : Nat) + f := by
    rw [hf, div_eq_iff hden.ne', add_mul, div_mul_cancel₀ _ hden.ne']
    exact_mod_cast (Nat.div_add_mod' num den).symm
  have hdouble : 2 * f * den = (2 * (num % den) : Nat) := by
    rw [hf, mul_assoc, div_mul_cancel₀ _ hden.ne', Nat.cast_mul, Nat.cast_ofNat]
  have hnonneg : 0 ≤ f := by
    rw [hf]
    positivity
  unfold roundHalfEven
  rw [hsplit]
  simp only
  split
  · next h =>
    have hlt : 2 * f < 1 := by
      rw [← mul_lt_mul_iff_left₀ hden, hdouble, one_mul]
      exact_mod_cast Nat.compare_eq_lt.mp h
    constructor <;> rw [sub_add_cancel_left, abs_neg, abs_of_nonneg hnonneg]
    · linarith
    · intro he
      linarith
  · next h =>
    have hlt : 1 < 2 * f := by
      rw [← mul_lt_mul_iff_left₀ hden, hdouble, one_mul]
      exact_mod_cast Nat.compare_eq_gt.mp h
    have hone : f ≤ 1 := by
      rw [hf, div_le_one hden]
      exact_mod_cast (Nat.mod_lt num hd).le
    constructor <;> rw [Nat.cast_add, Nat.cast_one, add_sub_add_left_eq_sub, abs_of_nonneg (sub_nonneg.mpr hone)]
    · linarith
    · intro he
      linarith
  · next h =>
    have heq : 2 * f = 1 := by
      rw [← mul_left_inj' hden.ne', hdouble, one_mul]
      exact_mod_cast Nat.compare_eq_eq.mp h
    have hhalf : f = 1 / 2 := by linarith
    split
    · next heven =>
      refine ⟨?_, fun _ => heven⟩
      rw [hhalf, sub_add_cancel_left, abs_neg, abs_of_pos one_half_pos]
    · next hodd =>
      refine ⟨?_, fun _ => by omega⟩
      rw [hhalf, Nat.cast_add, Nat.cast_one, add_sub_add_left_eq_sub, sub_half, abs_of_pos one_half_pos]

theorem RoundsTo.eq_or_half_le (h : RoundsTo r m) (k : Nat) : k = m ∨ 1 / 2 ≤ |(k : ℚ) - r| := by
  by_cases hk : k = m
  · exact Or.inl hk
  · right
    have hone : (1 : ℚ) ≤ |(k : ℚ) - m| := by
      exact_mod_cast Int.one_le_abs (sub_ne_zero.mpr (Nat.cast_injective.ne hk))
    have htriangle := abs_sub_le (k : ℚ) r m
    rw [abs_sub_comm r] at htriangle
    linarith [h.close]

theorem RoundsTo.le (h : RoundsTo r m) (k : Nat) : |m - r| ≤ |k - r| := by
  rcases h.eq_or_half_le k with rfl | hk
  · exact le_rfl
  · exact h.close.trans hk

theorem RoundsTo.even_of_tie (h : RoundsTo r m) {k : Nat} (hk : k ≠ m) (ht : |k - r| = |m - r|) : m % 2 = 0 :=
  h.even (le_antisymm h.close (((h.eq_or_half_le k).resolve_left hk).trans_eq ht))

/-- What is rounded to `2 ^ 53`, which is even, reaches the middle below it. -/
theorem RoundsTo.lt_middle_iff (h : RoundsTo r m) (hm : m ≤ twoTo 53) : r < 2 ^ 53 - 1 / 2 ↔ m ≠ twoTo 53 := by
  obtain ⟨hlow, hhigh⟩ := abs_le.mp h.close
  constructor
  · rintro hr rfl
    rw [cast_twoTo] at hhigh
    linarith
  · intro hne
    have hcast : (m : ℚ) + 1 ≤ 2 ^ 53 := by
      rw [← cast_twoTo]
      exact_mod_cast lt_of_le_of_ne hm hne
    -- the middle itself would be rounded to an even number
    have hmiddle : r ≠ 2 ^ 53 - 1 / 2 := by
      intro hr
      have hlast : (m : ℚ) + 1 = 2 ^ 53 := le_antisymm hcast (by linarith)
      have hhalf : (m : ℚ) - r = -(1 / 2) := by linarith
      have heven : m % 2 = 0 := h.even (by rw [hhalf, abs_neg, abs_of_pos one_half_pos])
      have hodd : m + 1 = twoTo 53 := by
        rw [← cast_twoTo] at hlast
        exact_mod_cast hlast
      have hpow : twoTo 53 % 2 = 0 := by decide
      omega
    exact lt_of_le_of_ne (by linarith) hmiddle

end Integers

section Units

variable {q : ℚ} {e : Int} {m : Nat}

/-- A magnitude is rounded in units of `2 ^ e`. -/
structure InUnit (q : ℚ) (e : Int) : Prop where
  low : -1074 ≤ e
  below : q < 2 ^ 53 * 2 ^ e
  least : e = -1074 ∨ 2 ^ 52 * 2 ^ e ≤ q

theorem InUnit.of_hasUnit {num den u : Nat} (hd : 0 < den) (h : HasUnit num den u) :
    InUnit (num / den) ((u : Int) - 1074) := by
  have hden : (0 : ℚ) < den := Nat.cast_pos.mpr hd
  have hscale : (0 : ℚ) < twoTo 1074 := Nat.cast_pos.mpr (twoTo_pos 1074)
  have hpow (k : Nat) : (2 : ℚ) ^ k * 2 ^ ((u : Int) - 1074) = twoTo (u + k) / twoTo 1074 := by
    rw [twoTo_add, Nat.cast_mul, cast_twoTo, cast_twoTo, cast_twoTo, zpow_sub₀ two_ne_zero, zpow_natCast,
      zpow_ofNat, mul_div_assoc', mul_comm]
  refine ⟨by omega, ?_, ?_⟩
  · rw [hpow, div_lt_div_iff₀ hden hscale, mul_comm (twoTo _ : ℚ)]
    exact_mod_cast h.below
  · rw [hpow, div_le_div_iff₀ hscale hden, mul_comm (twoTo _ : ℚ)]
    refine h.least.imp (fun hu => by omega) fun hl => ?_
    exact_mod_cast hl

/-- Every magnitude of the format is a multiple of the unit, or below all numbers that are rounded in it. -/
theorem magnitude_cases (y : Binary64) (e : Int) :
    (∃ k : Nat, y.magnitude = k * 2 ^ e) ∨ y.exp < e ∧ y.magnitude < 2 ^ 52 * 2 ^ e := by
  have hmant := y.canonical.1
  by_cases hy : e ≤ y.exp
  · obtain ⟨k, hk⟩ := Int.le.dest hy
    refine Or.inl ⟨y.mant * twoTo k, ?_⟩
    rw [magnitude, ← hk, zpow_add₀ two_ne_zero, Nat.cast_mul, cast_twoTo, zpow_natCast]
    ring
  · refine Or.inr ⟨Int.lt_of_not_ge hy, ?_⟩
    have hlt : (y.mant : ℚ) < 2 ^ 53 := by
      rw [← cast_twoTo]
      exact_mod_cast hmant
    calc y.magnitude < 2 ^ 53 * 2 ^ y.exp := mul_lt_mul_of_pos_right hlt (by positivity)
      _ ≤ 2 ^ 53 * 2 ^ (e - 1) :=
          mul_le_mul_of_nonneg_left (zpow_le_zpow_right₀ one_le_two (by omega)) (by positivity)
      _ = 2 ^ 52 * 2 ^ e := by
          rw [zpow_sub_one₀ two_ne_zero]
          ring

theorem abs_mul_unit_sub (m : Nat) (q : ℚ) (e : Int) : |m * 2 ^ e - q| = |m - q / 2 ^ e| * 2 ^ e := by
  have hpos : (0 : ℚ) < 2 ^ e := by positivity
  rw [← abs_of_pos hpos, ← abs_mul, abs_of_pos hpos, sub_mul, div_mul_cancel₀ _ hpos.ne']

/-- The nearest multiple of the unit is a nearest number of the format. -/
theorem InUnit.nearest (h : InUnit q e) (hm : RoundsTo (q / 2 ^ e) m) (y : Binary64) :
    |m * 2 ^ e - q| ≤ |y.magnitude - q| ∧
      (y.magnitude ≠ m * 2 ^ e → |y.magnitude - q| = |m * 2 ^ e - q| → m % 2 = 0) := by
  have hpos : (0 : ℚ) < 2 ^ e := by positivity
  rcases magnitude_cases y e with ⟨k, hk⟩ | ⟨hexp, hlt⟩
  · rw [hk, abs_mul_unit_sub, abs_mul_unit_sub]
    refine ⟨mul_le_mul_of_nonneg_right (hm.le k) hpos.le, fun hky ht => ?_⟩
    exact hm.even_of_tie (fun he => hky (by rw [he])) (mul_right_cancel₀ hpos.ne' ht)
  · -- the least significand of the unit lies between
    have hlow := y.canonical.2.1
    have hleast := h.least.resolve_left (by omega)
    have hbetween : |m * 2 ^ e - q| ≤ q - 2 ^ 52 * 2 ^ e := by
      have hclose := hm.le (twoTo 52)
      rw [← mul_le_mul_iff_left₀ hpos, ← abs_mul_unit_sub, ← abs_mul_unit_sub, cast_twoTo] at hclose
      rwa [abs_sub_comm (2 ^ 52 * 2 ^ e), abs_of_nonneg (sub_nonneg.mpr hleast)] at hclose
    have hfar : |y.magnitude - q| = q - y.magnitude := by
      rw [abs_sub_comm, abs_of_pos (by linarith)]
    rw [hfar]
    exact ⟨by linarith, fun _ ht => absurd ht (by linarith)⟩

end Units

theorem ofParts_eq_finite_iff {neg : Bool} {m : Nat} {e : Int} {x : Binary64} :
    ofParts neg m e = .finite x ↔ x.neg = neg ∧ x.mant = m ∧ x.exp = e := by
  unfold ofParts
  constructor
  · intro h
    split at h
    · rw [← Rounded.finite.inj h]
      exact ⟨rfl, rfl, rfl⟩
    · exact absurd h (by simp)
  · rintro ⟨rfl, rfl, rfl⟩
    rw [dif_pos x.canonical]

section Ratios

variable {num den : Nat} {neg : Bool} {x : Binary64}

theorem inUnits_eq (num den : Nat) (e : Int) :
    ((inUnits num den e).1 : ℚ) / (inUnits num den e).2 = num / den / 2 ^ e := by
  rw [inUnits, Nat.cast_mul, Nat.cast_mul, cast_twoTo, cast_twoTo, ← pow_toNat_div two_ne_zero e, div_div_eq_mul_div,
    mul_comm (num / den : ℚ), ← mul_div_assoc, div_div]
  ring

/-- A ratio is counted in its unit, and the nearest integer is the significand unless it has a bit too many. -/
theorem exists_unit (neg : Bool) (hn : num ≠ 0) (hd : 0 < den) :
    ∃ (e : Int) (m : Nat), InUnit (num / den) e ∧ RoundsTo (num / den / 2 ^ e) m ∧
      roundRatio neg num den = if m = twoTo 53 then ofParts neg (twoTo 52) (e + 1) else ofParts neg m e := by
  obtain ⟨u, hu, hunit⟩ := exists_unitExponent hn hd.ne'
  refine ⟨(u : Int) - 1074, _, .of_hasUnit hd hunit, ?_, by rw [roundRatio, if_neg hn, hu]⟩
  rw [← inUnits_eq]
  exact roundsTo_roundHalfEven _ (Nat.mul_pos hd (twoTo_pos _))

/-- The number that a ratio is rounded to is a multiple of the unit. -/
theorem eq_of_carried {m : Nat} {e : Int}
    (h : (if m = twoTo 53 then ofParts neg (twoTo 52) (e + 1) else ofParts neg m e) = .finite x) :
    x.neg = neg ∧ x.magnitude = m * 2 ^ e ∧ (m % 2 = 0 → x.mant % 2 = 0) := by
  split at h
  · next hm =>
    obtain ⟨hneg, hmant, hexp⟩ := ofParts_eq_finite_iff.mp h
    refine ⟨hneg, ?_, fun _ => by rw [hmant]; decide⟩
    rw [magnitude, hmant, hexp, hm, cast_twoTo, cast_twoTo, zpow_add_one₀ two_ne_zero]
    ring
  · obtain ⟨hneg, hmant, hexp⟩ := ofParts_eq_finite_iff.mp h
    exact ⟨hneg, by rw [magnitude, hmant, hexp], fun hm => by rwa [hmant]⟩

/-- A ratio is rounded to a nearest number. -/
theorem isNearest_of_roundRatio (hd : 0 < den) (h : roundRatio neg num den = .finite x) :
    x.IsNearest (withSign neg (num / den)) := by
  by_cases hn : num = 0
  · rw [roundRatio, if_pos hn] at h
    rw [← Rounded.finite.inj h, hn, Nat.cast_zero, zero_div, withSign_zero]
    exact isNearest_zero neg
  · obtain ⟨e, m, hunit, hround, hratio⟩ := exists_unit neg hn hd
    obtain ⟨hneg, hmag, heven⟩ := eq_of_carried (hratio ▸ h)
    have hpos : (0 : ℚ) < num / den := div_pos (Nat.cast_pos.mpr (Nat.pos_of_ne_zero hn)) (Nat.cast_pos.mpr hd)
    have hdist : |x.value - withSign neg (num / den)| = |(m * 2 ^ e : ℚ) - num / den| := by
      rw [value, hneg, abs_withSign_sub, hmag]
    refine ⟨fun y => ?_, fun y hy ht => heven ?_⟩
    · rw [hdist]
      exact (hunit.nearest hround y).1.trans (abs_sub_le_withSign y.magnitude_nonneg hpos.le)
    · rw [hdist] at ht
      obtain ⟨hle, htie⟩ := hunit.nearest hround y
      by_cases hmagnitude : y.magnitude = m * 2 ^ e
      · -- numbers of one magnitude have different signs, and the other one is further away
        have hsign : y.neg = !neg :=
          Bool.eq_not.mpr fun hs => hy (by rw [value, value, hs, hneg, hmagnitude, hmag])
        rw [value, hsign, abs_withSign_not_sub _ y.magnitude_nonneg hpos.le, hmagnitude] at ht
        have hzero : (m : ℚ) * 2 ^ e = 0 := by
          rcases abs_cases ((m : ℚ) * 2 ^ e - num / den) with ⟨ha, -⟩ | ⟨ha, -⟩
          · linarith
          · linarith
        exact absurd (by rw [value, value, hmagnitude, hmag, hzero, withSign_zero, withSign_zero]) hy
      · exact htie hmagnitude
          (le_antisymm ((abs_sub_le_withSign y.magnitude_nonneg hpos.le).trans_eq ht) hle)

/-! The ratios that are not too large. -/

theorem exists_ofParts_iff {m : Nat} {e : Int} : (∃ x, ofParts neg m e = .finite x) ↔
    m < twoTo 53 ∧ -1074 ≤ e ∧ e ≤ 971 ∧ (twoTo 52 ≤ m ∨ e = -1074) := by
  unfold ofParts
  split
  · next h => exact iff_of_true ⟨_, rfl⟩ h
  · next h =>
    refine iff_of_false ?_ h
    rintro ⟨x, hx⟩
    exact absurd hx (by simp)

theorem significand_bounds {q : ℚ} {e : Int} {m : Nat} (h : InUnit q e) (hm : RoundsTo (q / 2 ^ e) m) :
    m ≤ twoTo 53 ∧ (twoTo 52 ≤ m ∨ e = -1074) := by
  have hpos : (0 : ℚ) < 2 ^ e := by positivity
  obtain ⟨hlow, hhigh⟩ := abs_le.mp hm.close
  have hbelow : q / 2 ^ e < 2 ^ 53 := (div_lt_iff₀ hpos).mpr h.below
  constructor
  · have hlt : (m : ℚ) < (twoTo 53 + 1 : Nat) := by
      rw [Nat.cast_add, cast_twoTo, Nat.cast_one]
      linarith
    exact Nat.le_of_lt_succ (Nat.cast_lt.mp hlt)
  · refine h.least.symm.imp_left fun hl => ?_
    have hleast : 2 ^ 52 ≤ q / 2 ^ e := (le_div_iff₀ hpos).mpr hl
    have hlt : (twoTo 52 : ℚ) < (m + 1 : Nat) := by
      rw [Nat.cast_add, cast_twoTo, Nat.cast_one]
      linarith
    exact Nat.le_of_lt_succ (Nat.cast_lt.mp hlt)

theorem exists_carried_iff {e : Int} {m : Nat} (he : -1074 ≤ e) (hm : m ≤ twoTo 53)
    (hleast : twoTo 52 ≤ m ∨ e = -1074) :
    (∃ x, (if m = twoTo 53 then ofParts neg (twoTo 52) (e + 1) else ofParts neg m e) = .finite x) ↔
      e ≤ 970 ∨ e = 971 ∧ m ≠ twoTo 53 := by
  split
  · next hcarry =>
    have hlt : twoTo 52 < twoTo 53 := by decide
    rw [exists_ofParts_iff]
    constructor
    · rintro ⟨-, -, hle, -⟩
      exact Or.inl (by omega)
    · rintro (hle | ⟨-, hne⟩)
      · exact ⟨hlt, by omega, by omega, Or.inl le_rfl⟩
      · exact absurd hcarry hne
  · next hne =>
    rw [exists_ofParts_iff]
    constructor
    · rintro ⟨-, -, hle, -⟩
      by_cases h : e ≤ 970
      · exact Or.inl h
      · exact Or.inr ⟨by omega, hne⟩
    · intro h
      exact ⟨lt_of_le_of_ne hm hne, he, by omega, hleast⟩

theorem overflowBound_eq : overflowBound = (2 ^ 53 - 1 / 2) * 2 ^ (971 : Int) := by
  have h : (2 : ℚ) ^ (971 : Int) = 2 * 2 ^ 970 := by
    rw [zpow_ofNat, pow_succ']
  have h' : (2 : ℚ) ^ 1024 = 2 ^ 54 * 2 ^ 970 := by rw [← pow_add]
  rw [overflowBound, h, h']
  generalize (2 : ℚ) ^ 970 = p
  ring

/-- The powers of two that are values of the format are below the bound. -/
theorem pow_le_overflowBound {k : Nat} (hk : k ≤ 1023) : 2 ^ k ≤ overflowBound :=
  calc (2 : ℚ) ^ k ≤ 2 ^ 1023 := pow_le_pow_right₀ one_le_two hk
    _ = 2 ^ 52 * 2 ^ (971 : Int) := by rw [zpow_ofNat, ← pow_add]
    _ ≤ (2 ^ 53 - 1 / 2) * 2 ^ (971 : Int) := mul_le_mul_of_nonneg_right (by norm_num) (by positivity)
    _ = overflowBound := overflowBound_eq.symm

theorem overflowBound_pos : 0 < overflowBound := (pow_pos two_pos 0).trans_le (pow_le_overflowBound (Nat.zero_le _))

theorem CorrectlyRounded.zero (neg : Bool) : CorrectlyRounded 0 (.finite (zero neg)) where
  nearest _ h := Rounded.finite.inj h ▸ isNearest_zero neg
  finite_iff := iff_of_true ⟨_, rfl⟩ (by rw [abs_zero]; exact overflowBound_pos)

/-- A magnitude is below the bound exactly if it is rounded in a unit of the format without a carry out of the
greatest one. -/
theorem lt_overflowBound_iff {q : ℚ} {e : Int} {m : Nat} (h : InUnit q e) (hm : RoundsTo (q / 2 ^ e) m) :
    q < overflowBound ↔ e ≤ 970 ∨ e = 971 ∧ m ≠ twoTo 53 := by
  have hpos : (0 : ℚ) < 2 ^ (971 : Int) := by positivity
  have hbelow := h.below
  rw [overflowBound_eq]
  rcases lt_trichotomy e 971 with hlt | rfl | hgt
  · -- in a smaller unit
    have hle : (2 : ℚ) ^ e * 2 ≤ 2 ^ (971 : Int) := by
      rw [← zpow_add_one₀ two_ne_zero]
      exact zpow_le_zpow_right₀ one_le_two (by omega)
    refine iff_of_true ?_ (Or.inl (by omega))
    generalize (2 : ℚ) ^ (971 : Int) = p at *
    linarith
  · -- in the greatest unit
    rw [← div_lt_iff₀ hpos, hm.lt_middle_iff (significand_bounds h hm).1]
    omega
  · -- in a greater unit
    have hle : (2 : ℚ) ^ (971 : Int) * 2 ≤ 2 ^ e := by
      rw [← zpow_add_one₀ two_ne_zero]
      exact zpow_le_zpow_right₀ one_le_two (by omega)
    have hleast := h.least.resolve_left (by omega)
    refine iff_of_false (not_lt.mpr ?_) (by omega)
    generalize (2 : ℚ) ^ (971 : Int) = p at *
    linarith

/-- A ratio is too large for the format exactly if it reaches the bound. -/
theorem exists_roundRatio_iff (neg : Bool) (hd : 0 < den) :
    (∃ x, roundRatio neg num den = .finite x) ↔ (num / den : ℚ) < overflowBound := by
  by_cases hn : num = 0
  · rw [roundRatio, if_pos hn, hn, Nat.cast_zero, zero_div]
    exact iff_of_true ⟨_, rfl⟩ overflowBound_pos
  · obtain ⟨e, m, hunit, hround, hratio⟩ := exists_unit neg hn hd
    obtain ⟨hm, hleast⟩ := significand_bounds hunit hround
    rw [hratio, exists_carried_iff hunit.low hm hleast, lt_overflowBound_iff hunit hround]

theorem correctlyRounded_roundRatio (neg : Bool) (num : Nat) (hd : 0 < den) :
    CorrectlyRounded (withSign neg (num / den)) (roundRatio neg num den) where
  nearest _ h := isNearest_of_roundRatio hd h
  finite_iff := by
    rw [abs_withSign neg (by positivity)]
    exact exists_roundRatio_iff neg hd

end Ratios

end Binary64

end Chronicle
