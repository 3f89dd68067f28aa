import Chronicle.Number.Decimal

/-!
# Rounding ratios

The unit in which a ratio is rounded is the least one of the format in which the ratio stays below `2 ^ 53`. It depends
on the ratio alone and not on the two numbers that make it, and so does the rounded number. A number of the format is
rounded to itself.
-/

namespace Chronicle

theorem twoTo_add (a b : Nat) : twoTo (a + b) = twoTo a * twoTo b := Nat.pow_add 2 a b

theorem twoTo_pos (k : Nat) : 0 < twoTo k := Nat.pow_pos (by decide)

theorem twoTo_le {a b : Nat} (h : a ≤ b) : twoTo a ≤ twoTo b := Nat.pow_le_pow_right (by decide) h

theorem tenTo_add (a b : Nat) : tenTo (a + b) = tenTo a * tenTo b := Nat.pow_add 10 a b

theorem tenTo_pos (k : Nat) : 0 < tenTo k := Nat.pow_pos (by decide)

theorem twoTo_log2_le {n : Nat} (h : n ≠ 0) : twoTo n.log2 ≤ n := Nat.log2_self_le h

theorem lt_twoTo_log2 (n : Nat) : n < twoTo (n.log2 + 1) := Nat.lt_log2_self

namespace Binary64

variable {num den num' den' u : Nat}

/-- The ratio is rounded in units of `2 ^ (u - 1074)`. -/
structure HasUnit (num den u : Nat) : Prop where
  below : num * twoTo 1074 < den * twoTo (u + 53)
  least : u = 0 ∨ den * twoTo (u + 52) ≤ num * twoTo 1074

theorem HasUnit.le {v : Nat} (h : HasUnit num den u) (h' : HasUnit num den v) : u ≤ v := by
  rcases h.least with rfl | hl
  · exact Nat.zero_le v
  · apply Nat.le_of_not_lt
    intro hlt
    have hpow : den * twoTo (v + 53) ≤ den * twoTo (u + 52) := Nat.mul_le_mul_left den (twoTo_le (by omega))
    exact Nat.lt_irrefl _ (Nat.lt_of_lt_of_le h'.below (Nat.le_trans hpow hl))

theorem HasUnit.unique {v : Nat} (h : HasUnit num den u) (h' : HasUnit num den v) : u = v :=
  Nat.le_antisymm (h.le h') (h'.le h)

theorem hasUnit_mul_iff {k : Nat} (hk : 0 < k) : HasUnit (num * k) (den * k) u ↔ HasUnit num den u := by
  have hbelow : num * k * twoTo 1074 < den * k * twoTo (u + 53) ↔ num * twoTo 1074 < den * twoTo (u + 53) := by
    rw [Nat.mul_right_comm, Nat.mul_right_comm den, Nat.mul_lt_mul_right hk]
  have hleast : den * k * twoTo (u + 52) ≤ num * k * twoTo 1074 ↔ den * twoTo (u + 52) ≤ num * twoTo 1074 := by
    rw [Nat.mul_right_comm, Nat.mul_right_comm num, Nat.mul_le_mul_right_iff hk]
  constructor
  · exact fun h => ⟨hbelow.mp h.below, h.least.imp id hleast.mp⟩
  · exact fun h => ⟨hbelow.mpr h.below, h.least.imp id hleast.mpr⟩

/-- The ratio counted in units is below `2 ^ 53` when its unit is no smaller than the right one. -/
theorem inUnits_lt_iff (hd : 0 < den) (u : Nat) :
    (inUnits num den (u - 1074)).1 / (inUnits num den (u - 1074)).2 < twoTo 53 ↔
      num * twoTo 1074 < den * twoTo (u + 53) := by
  have hden : 0 < (inUnits num den (u - 1074)).2 := Nat.mul_pos hd (twoTo_pos _)
  rw [Nat.div_lt_iff_lt_mul hden]
  change num * twoTo (-((u : Int) - 1074)).toNat < twoTo 53 * (den * twoTo ((u : Int) - 1074).toNat) ↔ _
  by_cases hu : 1074 ≤ u
  · obtain ⟨k, rfl⟩ := Nat.exists_eq_add_of_le hu
    have hneg : (-(((1074 + k : Nat) : Int) - 1074)).toNat = 0 := by omega
    have hpos : (((1074 + k : Nat) : Int) - 1074).toNat = k := by omega
    have hright : den * twoTo (1074 + k + 53) = twoTo 53 * (den * twoTo k) * twoTo 1074 := by
      rw [twoTo_add, twoTo_add]
      generalize twoTo 1074 = a
      ac_rfl
    rw [hneg, hpos, hright, Nat.mul_lt_mul_right (twoTo_pos 1074)]
    exact Iff.of_eq (congrArg (· < _) (Nat.mul_one num))
  · obtain ⟨k, hk⟩ := Nat.exists_eq_add_of_le (Nat.le_of_not_le hu)
    have hneg : (-((u : Int) - 1074)).toNat = k := by omega
    have hpos : ((u : Int) - 1074).toNat = 0 := by omega
    have hleft : num * twoTo 1074 = num * twoTo k * twoTo u := by
      rw [hk, twoTo_add]
      ac_rfl
    have hright : den * twoTo (u + 53) = twoTo 53 * den * twoTo u := by
      rw [twoTo_add]
      ac_rfl
    rw [hneg, hpos, hleft, hright, Nat.mul_lt_mul_right (twoTo_pos u)]
    exact Iff.of_eq (congrArg (fun d => num * twoTo k < twoTo 53 * d) (Nat.mul_one den))

/-- The lengths of numerator and denominator leave two units to choose from. -/
theorem hasUnit_of_log2 (hn : num ≠ 0) (hd : den ≠ 0) (hu : u + den.log2 + 53 = num.log2 + 1074) :
    den * twoTo (u + 52) ≤ num * twoTo 1074 ∧ num * twoTo 1074 < den * twoTo (u + 54) := by
  constructor
  · calc den * twoTo (u + 52) ≤ twoTo (den.log2 + 1) * twoTo (u + 52) :=
          Nat.mul_le_mul_right _ (Nat.le_of_lt (lt_twoTo_log2 den))
      _ = twoTo num.log2 * twoTo 1074 := by
          rw [← twoTo_add, ← twoTo_add]
          exact congrArg twoTo (by omega)
      _ ≤ num * twoTo 1074 := Nat.mul_le_mul_right _ (twoTo_log2_le hn)
  · calc num * twoTo 1074 < twoTo (num.log2 + 1) * twoTo 1074 :=
          Nat.mul_lt_mul_of_pos_right (lt_twoTo_log2 num) (twoTo_pos 1074)
      _ = twoTo den.log2 * twoTo (u + 54) := by
          rw [← twoTo_add, ← twoTo_add]
          exact congrArg twoTo (by omega)
      _ ≤ den * twoTo (u + 54) := Nat.mul_le_mul_right _ (twoTo_log2_le hd)

theorem hasUnit_zero (hd : den ≠ 0) (hu : num.log2 + 1074 < den.log2 + 53) : HasUnit num den 0 := by
  refine ⟨?_, Or.inl rfl⟩
  calc num * twoTo 1074 < twoTo (num.log2 + 1) * twoTo 1074 :=
        Nat.mul_lt_mul_of_pos_right (lt_twoTo_log2 num) (twoTo_pos 1074)
    _ = twoTo (num.log2 + 1 + 1074) := (twoTo_add _ _).symm
    _ ≤ twoTo (den.log2 + 53) := twoTo_le (by omega)
    _ = twoTo den.log2 * twoTo (0 + 53) := by rw [Nat.zero_add, twoTo_add]
    _ ≤ den * twoTo (0 + 53) := Nat.mul_le_mul_right _ (twoTo_log2_le hd)

theorem exists_unitExponent (hn : num ≠ 0) (hd : den ≠ 0) :
    ∃ u : Nat, unitExponent num den = (u : Int) - 1074 ∧ HasUnit num den u := by
  have hden : 0 < den := Nat.pos_of_ne_zero hd
  by_cases hlow : num.log2 + 1074 < den.log2 + 53
  · have hunit := hasUnit_zero hd hlow
    have hmax : max ((num.log2 : Int) - den.log2 - 53) (-1074) = ((0 : Nat) : Int) - 1074 := by omega
    refine ⟨0, ?_, hunit⟩
    simp only [unitExponent, hmax]
    rw [if_pos ((inUnits_lt_iff hden 0).mpr hunit.below)]
  · obtain ⟨u, hu⟩ := Nat.exists_eq_add_of_le (Nat.le_of_not_lt hlow)
    have hmax : max ((num.log2 : Int) - den.log2 - 53) (-1074) = (u : Int) - 1074 := by omega
    obtain ⟨hleast, hbelow⟩ := hasUnit_of_log2 hn hd (u := u) (by omega)
    simp only [unitExponent, hmax]
    by_cases hlt : num * twoTo 1074 < den * twoTo (u + 53)
    · exact ⟨u, if_pos ((inUnits_lt_iff hden u).mpr hlt), hlt, Or.inr hleast⟩
    · refine ⟨u + 1, ?_, hbelow, Or.inr (Nat.le_of_not_lt hlt)⟩
      rw [if_neg fun h => hlt ((inUnits_lt_iff hden u).mp h)]
      omega

theorem unitExponent_eq (hn : num ≠ 0) (hd : den ≠ 0) (h : HasUnit num den u) :
    unitExponent num den = (u : Int) - 1074 := by
  obtain ⟨v, hv, hunit⟩ := exists_unitExponent hn hd
  rw [hv, hunit.unique h]

theorem unitExponent_mul (hn : num ≠ 0) (hd : den ≠ 0) {k : Nat} (hk : 0 < k) :
    unitExponent (num * k) (den * k) = unitExponent num den := by
  obtain ⟨u, hu, hunit⟩ := exists_unitExponent hn hd
  have hk' : k ≠ 0 := Nat.ne_of_gt hk
  rw [hu, unitExponent_eq (Nat.mul_ne_zero hn hk') (Nat.mul_ne_zero hd hk') ((hasUnit_mul_iff hk).mpr hunit)]

theorem inUnits_mul (num den k : Nat) (e : Int) :
    inUnits (num * k) (den * k) e = ((inUnits num den e).1 * k, (inUnits num den e).2 * k) := by
  simp only [inUnits, Nat.mul_right_comm]

theorem roundHalfEven_mul (num den : Nat) {k : Nat} (hk : 0 < k) :
    roundHalfEven (num * k) (den * k) = roundHalfEven num den := by
  have hcompare : compare (2 * (num % den * k)) (den * k) = compare (2 * (num % den)) den := by
    rw [← Nat.mul_assoc]
    simp only [Nat.compare_eq_ite_lt, Nat.mul_lt_mul_right hk]
  unfold roundHalfEven
  rw [Nat.mul_div_mul_right _ _ hk, Nat.mul_mod_mul_right, hcompare]

/-- An integer is rounded to itself. -/
theorem roundHalfEven_mul_self (m : Nat) (hd : 0 < den) : roundHalfEven (m * den) den = m := by
  unfold roundHalfEven
  rw [Nat.mul_div_cancel m hd, Nat.mul_mod_left, Nat.mul_zero, Nat.compare_eq_lt.mpr hd]

theorem roundRatio_mul (neg : Bool) (num : Nat) (hd : den ≠ 0) {k : Nat} (hk : 0 < k) :
    roundRatio neg (num * k) (den * k) = roundRatio neg num den := by
  by_cases hn : num = 0
  · rw [hn, Nat.zero_mul, roundRatio, roundRatio, if_pos rfl, if_pos rfl]
  · have hn' : num * k ≠ 0 := Nat.mul_ne_zero hn (Nat.ne_of_gt hk)
    simp only [roundRatio, if_neg hn, if_neg hn', unitExponent_mul hn hd hk, inUnits_mul, roundHalfEven_mul _ _ hk]

/-- Equal ratios are rounded to the same number. -/
theorem roundRatio_congr (neg : Bool) (hd : den ≠ 0) (hd' : den' ≠ 0) (h : num * den' = num' * den) :
    roundRatio neg num den = roundRatio neg num' den' := by
  have hleft := roundRatio_mul neg num hd (Nat.pos_of_ne_zero hd')
  have hright := roundRatio_mul neg num' hd' (Nat.pos_of_ne_zero hd)
  rw [← hleft, ← hright, h, Nat.mul_comm den]

/-- A number of the format is rounded to itself. -/
theorem roundRatio_self (x : Binary64) (hx : x.mant ≠ 0) :
    roundRatio x.neg (x.mant * twoTo x.exp.toNat) (twoTo (-x.exp).toNat) = .finite x := by
  obtain ⟨hmant, hlow, hhigh, hcanonical⟩ := x.canonical
  have hn : x.mant * twoTo x.exp.toNat ≠ 0 := Nat.mul_ne_zero hx (Nat.ne_of_gt (twoTo_pos _))
  have hd : twoTo (-x.exp).toNat ≠ 0 := Nat.ne_of_gt (twoTo_pos _)
  have hscale : x.mant * twoTo x.exp.toNat * twoTo 1074 =
      x.mant * twoTo ((-x.exp).toNat + (x.exp + 1074).toNat) := by
    rw [Nat.mul_assoc, ← twoTo_add]
    exact congrArg (fun k => x.mant * twoTo k) (by omega)
  have hpower (k : Nat) : twoTo (-x.exp).toNat * twoTo ((x.exp + 1074).toNat + k) =
      twoTo k * twoTo ((-x.exp).toNat + (x.exp + 1074).toNat) := by
    rw [← twoTo_add, ← twoTo_add]
    exact congrArg twoTo (by omega)
  have hunit : HasUnit (x.mant * twoTo x.exp.toNat) (twoTo (-x.exp).toNat) (x.exp + 1074).toNat := by
    constructor
    · rw [hscale, hpower]
      exact Nat.mul_lt_mul_of_pos_right hmant (twoTo_pos _)
    · rcases hcanonical with hm | hm
      · right
        rw [hscale, hpower]
        exact Nat.mul_le_mul_right _ hm
      · left
        omega
  have hexp : unitExponent (x.mant * twoTo x.exp.toNat) (twoTo (-x.exp).toNat) = x.exp := by
    rw [unitExponent_eq hn hd hunit]
    omega
  have hround : roundHalfEven (x.mant * twoTo x.exp.toNat * twoTo (-x.exp).toNat)
      (twoTo (-x.exp).toNat * twoTo x.exp.toNat) = x.mant := by
    rw [Nat.mul_assoc, Nat.mul_comm (twoTo x.exp.toNat)]
    exact roundHalfEven_mul_self x.mant (Nat.mul_pos (twoTo_pos _) (twoTo_pos _))
  simp only [roundRatio, if_neg hn, hexp, inUnits, hround, if_neg (Nat.ne_of_lt hmant), ofParts, dif_pos x.canonical]

end Binary64

end Chronicle
