import Chronicle.Proofs.NumberTexts
import Chronicle.Proofs.RoundedResults

/-!
# Numbers that are read by scaling

The reader rounds the digits of a number to an integer of the format and scales it by a power of ten. Both are exact
as long as the digits stay below `2 ^ 53` and the power is at most `10 ^ 22`, so the one product or quotient that is
left gives the number nearest to the text. Short decimals therefore read back, and longer ones need not.
-/

namespace Chronicle

namespace Binary64

variable {x y : Binary64} {num den n : Nat} {neg : Bool}

theorem roundRatio_eq_of_div_eq {num' den' : Nat} (hd : den ≠ 0) (hd' : den' ≠ 0)
    (h : (num : ℚ) / den = num' / den') : roundRatio neg num den = roundRatio neg num' den' := by
  rw [div_eq_div_iff (Nat.cast_ne_zero.mpr hd) (Nat.cast_ne_zero.mpr hd')] at h
  exact roundRatio_congr neg hd hd' (by exact_mod_cast h)

theorem mant_ne_zero_of_magnitude (hn : n ≠ 0) (h : x.magnitude = n) : x.mant ≠ 0 := by
  intro hx
  rw [magnitude, hx, Nat.cast_zero, zero_mul] at h
  exact hn (Nat.cast_eq_zero.mp h.symm)

/-- An integer that is the magnitude of a number is rounded to that number. -/
theorem roundRatio_of_magnitude (hn : n ≠ 0) (h : x.magnitude = n) : roundRatio x.neg n 1 = .finite x := by
  rw [← roundRatio_self x (mant_ne_zero_of_magnitude hn h)]
  apply roundRatio_eq_of_div_eq one_ne_zero (Nat.ne_of_gt (twoTo_pos _))
  rw [ratio_mul_unit, ← h, Nat.cast_one, div_one, magnitude]

/-! Products and quotients are rounded once. -/

theorem mul_eq_roundRatio (hd : den ≠ 0) (h : x.magnitude * y.magnitude = num / den) :
    x.mul y = roundRatio (x.neg != y.neg) num den := by
  apply roundRatio_eq_of_div_eq (Nat.ne_of_gt (twoTo_pos _)) hd
  rw [← h, ratio_mul_unit, Nat.cast_mul, zpow_add₀ two_ne_zero, mul_mul_mul_comm, magnitude, magnitude]

theorem div_eq_roundRatio (hy : y.mant ≠ 0) (hd : den ≠ 0) (h : x.magnitude / y.magnitude = num / den) :
    x.div y = roundRatio (x.neg != y.neg) num den := by
  apply roundRatio_eq_of_div_eq (Nat.mul_ne_zero hy (Nat.ne_of_gt (twoTo_pos _))) hd
  rw [← h, ratio_div]

/-! Powers of ten up to `10 ^ 22`, and scaling by them. The odd part of such a power has at most 53 bits. -/

theorem nearestTenTo_of_le {k : Nat} (hk : k ≤ 22) :
    ∃ p : Binary64, nearestTenTo k = .finite p ∧ p.neg = false ∧ p.magnitude = tenTo k := by
  have hfive : Nat.pow 5 k < twoTo 53 := (Nat.pow_le_pow_right (by decide) hk).trans_lt (by decide)
  obtain ⟨p, hneg, hp⟩ := exists_magnitude hfive (hk.trans (by decide)) false
  have hten : p.magnitude = tenTo k := by
    rw [hp, tenTo_eq_mul, Nat.cast_mul, cast_twoTo]
  refine ⟨p, ?_, hneg, hten⟩
  rw [nearestTenTo, ← hneg]
  exact roundRatio_of_magnitude (Nat.ne_of_gt (tenTo_pos k)) hten

/-- Scaling an integer by a small power of ten is rounded once. -/
theorem scale_eq_round (hx : x.magnitude = n) {e : Int} (hl : -22 ≤ e) (hu : e ≤ 22) :
    x.scale e = roundRatio x.neg (n * tenTo e.toNat) (tenTo (-e).toNat) := by
  have hpositive (p : Binary64) (hp : p.neg = false) : (x.neg != p.neg) = x.neg := by
    rw [hp, Bool.bne_false]
  rw [scale, if_neg (by omega)]
  by_cases he : 0 ≤ e
  · obtain ⟨p, hten, hneg, hp⟩ := nearestTenTo_of_le (k := e.toNat) (by omega)
    have hzero : (-e).toNat = 0 := by omega
    rw [if_pos he, hten, Rounded.bind, ← hpositive p hneg]
    apply mul_eq_roundRatio (Nat.ne_of_gt (tenTo_pos _))
    rw [hx, hp, hzero, Nat.cast_mul]
    exact (div_one _).symm
  · obtain ⟨p, hten, hneg, hp⟩ := nearestTenTo_of_le (k := (-e).toNat) (by omega)
    have hsteps : ((-e).toNat - 1) / 308 = 0 := by omega
    have hzero : e.toNat = 0 := by omega
    rw [if_neg he]
    simp only [hsteps, Nat.mul_zero, Nat.sub_zero, lower]
    rw [hten, Rounded.bind, ← hpositive p hneg]
    have hne : tenTo (-e).toNat ≠ 0 := Nat.ne_of_gt (tenTo_pos _)
    apply div_eq_roundRatio (mant_ne_zero_of_magnitude hne hp) hne
    rw [hx, hp, hzero]
    exact congrArg (fun m : Nat => (m : ℚ) / tenTo (-e).toNat) (Nat.mul_one n).symm

/-- An integer below `2 ^ 53` is rounded to itself. -/
theorem exists_roundRatio_natCast (hn : n < twoTo 53) (neg : Bool) :
    ∃ x : Binary64, roundRatio neg n 1 = .finite x ∧ x.neg = neg ∧ x.magnitude = n := by
  by_cases hzero : n = 0
  · exact ⟨zero neg, by rw [hzero, roundRatio, if_pos rfl], rfl, by simp [magnitude, zero, hzero]⟩
  · obtain ⟨x, rfl, hx⟩ := exists_magnitude hn (Nat.zero_le 971) neg
    rw [pow_zero, mul_one] at hx
    exact ⟨x, roundRatio_of_magnitude hzero hx, rfl, hx⟩

end Binary64

namespace Document

theorem le_ofDigitChars (ds : List Char) (n : Nat) : n ≤ Nat.ofDigitChars 10 ds n := by
  induction ds generalizing n with
  | nil => exact Nat.le_refl n
  | cons c ds ih =>
    rw [Nat.ofDigitChars_cons]
    exact Nat.le_trans (by omega) (ih _)

/-- All digits are read if the number has 64 bits. -/
theorem takeWord_of_lt {ds : List Char} {n : Nat} (h : Nat.ofDigitChars 10 ds n < twoTo 64) :
    takeWord n ds = (Nat.ofDigitChars 10 ds n, []) := by
  induction ds generalizing n with
  | nil => rfl
  | cons c ds ih =>
    rw [Nat.ofDigitChars_cons, Nat.mul_comm] at h ⊢
    rw [takeWord, if_pos (Nat.lt_of_le_of_lt (le_ofDigitChars ds _) h)]
    exact ih h

/-- A text of few digits and few places is rounded once, to the nearest number. -/
theorem floatOfParts_eq_round {neg : Bool} {whole frac : List Char} {exp : Int}
    (hc : Nat.ofDigitChars 10 (whole ++ frac) 0 < twoTo 53) (hl : -22 ≤ exp - frac.length)
    (hu : exp - frac.length ≤ 22) : floatOfParts neg whole frac exp =
      Decimal.round ⟨neg, Nat.ofDigitChars 10 (whole ++ frac) 0, exp - frac.length⟩ := by
  have hword : twoTo 53 ≤ twoTo 64 := twoTo_le (by decide)
  have hlength : (Nat.toDigits 10 (Nat.ofDigitChars 10 (whole ++ frac) 0)).length ≤ 16 :=
    (length_toDigits_le_iff (by decide)).mpr (Nat.lt_trans hc (by decide))
  rw [Decimal.round_eq_roundRatio (by simp only [Decimal.digits]; omega) (by simp only [Decimal.digits]; omega)]
  rw [Nat.ofDigitChars_append] at hc ⊢
  have hwhole := takeWord_of_lt (Nat.lt_of_le_of_lt (le_ofDigitChars frac _) (Nat.lt_of_lt_of_le hc hword))
  obtain ⟨x, hround, rfl, hx⟩ := Binary64.exists_roundRatio_natCast hc neg
  have hexp : exp + (0 : Nat) - frac.length = exp - frac.length := by omega
  simp only [floatOfParts, hwhole, takeWord_of_lt (Nat.lt_of_lt_of_le hc hword), hround, Rounded.bind,
    List.length_nil, Nat.sub_zero, hexp]
  exact Binary64.scale_eq_round hx hl hu

theorem numberOfParts_eq_float_iff {neg : Bool} {whole frac : List Char} {exp? : Option Int} {x : Binary64}
    (h : frac ≠ [] ∨ exp?.isSome = true) : numberOfParts neg whole frac exp? = .num (.float x) ↔
      floatOfParts neg whole frac (exp?.getD 0) = .finite x := by
  have hno (p : Prop) : ¬(frac.isEmpty = true ∧ exp?.isNone = true ∧ p) := by
    rintro ⟨hf, he, -⟩
    rcases h with hne | hsome
    · exact hne (List.isEmpty_iff.mp hf)
    · rw [Option.isNone_iff_eq_none.mp he] at hsome
      exact absurd hsome (by decide)
  simp only [numberOfParts, if_neg (hno _)]
  cases floatOfParts neg whole frac (exp?.getD 0) <;> simp

end Document

/-- A decimal of few digits and few places, counted as it is written with a point. -/
def Decimal.Short (d : Decimal) : Prop := d.coeff * tenTo (d.exp + 1).toNat < twoTo 53 ∧ -22 ≤ d.exp

instance (d : Decimal) : Decidable d.Short := inferInstanceAs (Decidable (_ ∧ _))

theorem Decimal.Short.exp_le {d : Decimal} (h : d.Short) (hd : d.coeff = 0 → d.exp = 0) : d.exp ≤ 22 := by
  by_cases hc : d.coeff = 0
  · rw [hd hc]
    decide
  · by_contra hlt
    have hbound : twoTo 53 ≤ tenTo 16 := by decide
    have hten : tenTo 16 ≤ tenTo (d.exp + 1).toNat := Nat.pow_le_pow_right (by decide) (by omega)
    have hle := Nat.le_mul_of_pos_left (tenTo (d.exp + 1).toNat) (Nat.pos_of_ne_zero hc)
    have := h.1
    omega

/-- A number with a fraction or an exponent is read from the characters as which it is written if these are few. -/
theorem Num.readsBack_float {x : Binary64} (h : x.shortest.Short) : (Num.float x).ReadsBack := by
  obtain ⟨l, hrender, ⟨k, hk, hdecimal⟩, hfractional⟩ := Decimal.exists_spells x.exp_shortest
  have htext : (Num.float x).render = l.chars x.shortest.neg := hrender
  have hround : (l.decimal x.shortest.neg).round = .finite x := by
    rw [hdecimal, Decimal.round_withZeros]
    exact x.shortest_readsAs
  have hcoeff : Nat.ofDigitChars 10 (l.whole ++ l.frac) 0 = x.shortest.coeff * tenTo k :=
    congrArg Decimal.coeff hdecimal
  have hexp : l.exponent.getD 0 - l.frac.length = x.shortest.exp - k := congrArg Decimal.exp hdecimal
  have hfloat : Document.floatOfParts x.shortest.neg l.whole l.frac (l.exponent.getD 0) = .finite x := by
    have hle := h.exp_le x.exp_shortest
    have hplaces := h.2
    rw [← hround]
    apply Document.floatOfParts_eq_round
    · rw [hcoeff]
      exact Nat.lt_of_le_of_lt (Nat.mul_le_mul_left _ (Nat.pow_le_pow_right (by decide) hk)) h.1
    · omega
    · omega
  rw [ReadsBack, htext, l.number?_chars, (Document.numberOfParts_eq_float_iff hfractional).mpr hfloat]

/-- The sum of 1.3 and 0.1, as it is rounded. -/
def dues : Binary64 := ⟨false, 6305039478318695, -52, by decide⟩

/-- A number of seventeen digits that is read as another one. -/
theorem Num.not_readsBack_dues : ¬(Num.float dues).ReadsBack := by
  have htext : (Num.float dues).render = "1.4000000000000001".toList := by decide +kernel
  have hparts : Document.number? "1.4000000000000001".toList =
      some (Document.numberOfParts false ['1'] "4000000000000001".toList none, []) := by rfl
  have hother : Document.floatOfParts false ['1'] "4000000000000001".toList 0 ≠ .finite dues := by decide +kernel
  intro h
  rw [ReadsBack, htext, hparts] at h
  exact hother ((Document.numberOfParts_eq_float_iff (Or.inl (by decide))).mp (Prod.mk.inj (Option.some.inj h)).1)

end Chronicle
