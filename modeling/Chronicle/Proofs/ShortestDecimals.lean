import Chronicle.Proofs.NumberTexts
import Chronicle.Proofs.Rounding

/-!
# The decimals as which numbers are written

A decimal is rounded by its value: zeros at its end make no difference. So the shortest decimal of a number, found by
trying ever finer grids, is rounded to that number, and so is the exact one where no grid has any.
-/

namespace Chronicle

theorem fivePow_add (a b : Nat) : Nat.pow 5 (a + b) = Nat.pow 5 a * Nat.pow 5 b := Nat.pow_add 5 a b

theorem tenTo_eq_mul (k : Nat) : tenTo k = Nat.pow 5 k * twoTo k := Nat.mul_pow 5 2 k

theorem tenTo_le_fivePow {a k : Nat} (h : twoTo k ≤ Nat.pow 5 a) : tenTo k ≤ Nat.pow 5 (a + k) :=
  calc tenTo k = Nat.pow 5 k * twoTo k := tenTo_eq_mul k
    _ ≤ Nat.pow 5 k * Nat.pow 5 a := Nat.mul_le_mul_left _ h
    _ = Nat.pow 5 (a + k) := by rw [Nat.mul_comm, fivePow_add]

theorem length_toDigits_le_iff {n k : Nat} (hk : 0 < k) : (Nat.toDigits 10 n).length ≤ k ↔ n < tenTo k :=
  Nat.length_toDigits_le_iff (by decide) hk

namespace Decimal

theorem length_toDigits_mul_tenTo {n : Nat} (hn : n ≠ 0) (k : Nat) :
    (Nat.toDigits 10 (n * tenTo k)).length = (Nat.toDigits 10 n).length + k := by
  induction k with
  | zero => exact congrArg (fun m => (Nat.toDigits 10 m).length) (Nat.mul_one n)
  | succ k ih =>
    have hstep : n * tenTo (k + 1) = n * tenTo k * 10 := by
      rw [tenTo_add, ← Nat.mul_assoc]
      rfl
    have hpos : 0 < n * tenTo k := Nat.mul_pos (Nat.pos_of_ne_zero hn) (tenTo_pos k)
    rw [hstep, Nat.toDigits_of_base_le (by decide) (by omega), Nat.mul_div_cancel _ (by decide), List.length_append, ih]
    rfl

theorem round_withZeros (d : Decimal) (k : Nat) : (d.withZeros k).round = d.round := by
  by_cases hc : d.coeff = 0
  · have hc' : (d.withZeros k).coeff = 0 := by rw [withZeros, hc, Nat.zero_mul]
    rw [round, round, if_pos hc, if_pos hc']
    rfl
  · have hc' : (d.withZeros k).coeff ≠ 0 := Nat.mul_ne_zero hc (Nat.ne_of_gt (tenTo_pos k))
    have htop : (d.withZeros k).exp + (d.withZeros k).digits.length = d.exp + d.digits.length := by
      simp only [withZeros, digits, length_toDigits_mul_tenTo hc]
      omega
    have hratio : Binary64.roundRatio d.neg (d.withZeros k).ratio.1 (d.withZeros k).ratio.2 =
        Binary64.roundRatio d.neg d.ratio.1 d.ratio.2 := by
      apply Binary64.roundRatio_congr _ (Nat.ne_of_gt (tenTo_pos _)) (Nat.ne_of_gt (tenTo_pos _))
      simp only [withZeros, ratio, Nat.mul_assoc, ← tenTo_add]
      exact congrArg (fun j => d.coeff * tenTo j) (by omega)
    rw [round, round, if_neg hc, if_neg hc']
    simp only [htop]
    rw [← hratio]
    rfl

theorem round_stripZeros (d : Decimal) (fuel : Nat) : (d.stripZeros fuel).round = d.round := by
  induction fuel generalizing d with
  | zero => rfl
  | succ fuel ih =>
    rw [stripZeros]
    split
    · next hz =>
      have hd : withZeros { d with coeff := d.coeff / 10, exp := d.exp + 1 } 1 = d := by
        have hcoeff : d.coeff / 10 * 10 = d.coeff := Nat.div_mul_cancel (Nat.dvd_of_mod_eq_zero hz)
        have hexp : d.exp + 1 - (1 : Nat) = d.exp := by omega
        exact congr (congrArg (Decimal.mk d.neg) hcoeff) hexp
      rw [ih, ← round_withZeros _ 1, hd]
    · rfl

/-- A decimal within the bounds of `round` is rounded as a ratio. -/
theorem round_eq_roundRatio {d : Decimal} (hhigh : d.exp + d.digits.length < 311)
    (hlow : -330 < d.exp + d.digits.length) : d.round = Binary64.roundRatio d.neg d.ratio.1 d.ratio.2 := by
  by_cases hc : d.coeff = 0
  · rw [round, if_pos hc, ratio, hc, Nat.zero_mul, Binary64.roundRatio, if_pos rfl]
  · rw [round, if_neg hc]
    simp only
    rw [if_neg (by omega), if_neg (by omega)]

end Decimal

namespace Binary64

variable {x : Binary64}

theorem readsAs_of_nearestOnGrid? {g : Int} {d : Decimal} (h : x.nearestOnGrid? g = some d) : d.ReadsAs x := by
  unfold nearestOnGrid? at h
  simp only at h
  split at h
  · next hbelow habove =>
    rw [← Option.some.inj h]
    rcases roundHalfEven_cases (x.mant * twoTo x.exp.toNat * tenTo (-g).toNat)
      (twoTo (-x.exp).toNat * tenTo g.toNat) with he | he
    · rw [he]
      exact of_decide_eq_true hbelow
    · rw [he]
      exact of_decide_eq_true habove
  · next hbelow _ => exact Option.some.inj h ▸ of_decide_eq_true hbelow
  · next _ habove => exact Option.some.inj h ▸ of_decide_eq_true habove
  · exact absurd h (by simp)

theorem exactDecimal_readsAs_of_nonneg (hx : x.mant ≠ 0) (he : 0 ≤ x.exp) : x.exactDecimal.ReadsAs x := by
  obtain ⟨hmant, -, hexp, -⟩ := x.canonical
  have hneg : (-x.exp).toNat = 0 := by omega
  have hlt : x.mant * twoTo x.exp.toNat < tenTo 309 :=
    calc x.mant * twoTo x.exp.toNat < twoTo 53 * twoTo x.exp.toNat := Nat.mul_lt_mul_of_pos_right hmant (twoTo_pos _)
      _ ≤ twoTo 53 * twoTo 971 := Nat.mul_le_mul_left _ (twoTo_le (by omega))
      _ ≤ tenTo 309 := by decide +kernel
  have hlength : (Nat.toDigits 10 (x.mant * twoTo x.exp.toNat)).length ≤ 309 :=
    (length_toDigits_le_iff (by decide)).mpr hlt
  have hself := roundRatio_self x hx
  rw [hneg] at hself
  rw [Decimal.ReadsAs, exactDecimal, if_pos he, Decimal.round_eq_roundRatio]
  · rw [← hself]
    exact roundRatio_congr _ (Nat.ne_of_gt (tenTo_pos _)) (Nat.ne_of_gt (twoTo_pos _)) (Nat.mul_assoc _ _ _)
  · simp only [Decimal.digits]
    omega
  · simp only [Decimal.digits]
    omega

theorem lt_length_exact {m k : Nat} (hm : m ≠ 0) (hk : k ≤ 1074) :
    k < (Nat.toDigits 10 (m * Nat.pow 5 k)).length + 330 := by
  apply Nat.lt_of_not_le
  intro hle
  obtain ⟨j, rfl⟩ := Nat.exists_eq_add_of_le (Nat.le_trans (Nat.le_add_left 330 _) hle)
  have hj : 0 < j := by
    have := Nat.length_toDigits_pos (b := 10) (n := m * Nat.pow 5 (330 + j))
    omega
  have hlt : m * Nat.pow 5 (330 + j) < tenTo j := (length_toDigits_le_iff hj).mp (by omega)
  have hbound : twoTo 744 ≤ Nat.pow 5 330 := by decide +kernel
  have hge : tenTo j ≤ m * Nat.pow 5 (330 + j) :=
    Nat.le_trans (tenTo_le_fivePow (Nat.le_trans (twoTo_le (by omega)) hbound))
      (Nat.le_mul_of_pos_left _ (Nat.pos_of_ne_zero hm))
  exact Nat.not_lt.mpr hge hlt

theorem length_exact_le {m : Nat} (hm : m < twoTo 53) (k : Nat) :
    (Nat.toDigits 10 (m * Nat.pow 5 k)).length ≤ k + 16 := by
  apply (length_toDigits_le_iff (by omega)).mpr
  have hfive : Nat.pow 5 k ≤ tenTo k := Nat.pow_le_pow_left (by decide) k
  have hsmall : twoTo 53 ≤ tenTo 16 := by decide
  calc m * Nat.pow 5 k < twoTo 53 * Nat.pow 5 k := Nat.mul_lt_mul_of_pos_right hm (Nat.pow_pos (by decide))
    _ ≤ tenTo 16 * tenTo k := Nat.mul_le_mul hsmall hfive
    _ = tenTo (k + 16) := by rw [Nat.mul_comm, tenTo_add]

theorem exactDecimal_readsAs_of_neg (hx : x.mant ≠ 0) (he : ¬0 ≤ x.exp) : x.exactDecimal.ReadsAs x := by
  obtain ⟨hmant, hexp, -, -⟩ := x.canonical
  obtain ⟨k, hk⟩ : ∃ k : Nat, x.exp = -k := ⟨(-x.exp).toNat, by omega⟩
  have hneg : (-x.exp).toNat = k := by omega
  have hpos : x.exp.toNat = 0 := by omega
  have hlow := lt_length_exact hx (k := k) (by omega)
  have hhigh := length_exact_le hmant k
  have hself := roundRatio_self x hx
  rw [hneg, hpos] at hself
  rw [Decimal.ReadsAs, exactDecimal, if_neg he, hneg, Decimal.round_eq_roundRatio]
  · rw [← hself]
    apply roundRatio_congr _ (Nat.ne_of_gt (tenTo_pos _)) (Nat.ne_of_gt (twoTo_pos _))
    simp only [Decimal.ratio, hneg, hpos, tenTo_eq_mul k]
    have hone : tenTo 0 = 1 := rfl
    have htwo : twoTo 0 = 1 := rfl
    rw [hone, htwo, Nat.mul_one, Nat.mul_one, Nat.mul_assoc]
  · simp only [Decimal.digits]
    omega
  · simp only [Decimal.digits]
    omega

theorem eq_zero_of_mant (hx : x.mant = 0) : x = zero x.neg := by
  obtain ⟨neg, mant, exp, hcanonical⟩ := x
  obtain rfl : mant = 0 := hx
  have hexp : exp = -1074 := hcanonical.2.2.2.resolve_left (by decide)
  subst hexp
  rfl

/-- The decimal as which a number is written is rounded to that number. -/
theorem shortest_readsAs (x : Binary64) : x.shortest.ReadsAs x := by
  by_cases hx : x.mant = 0
  · rw [shortest, if_pos hx, Decimal.ReadsAs, Decimal.round, if_pos rfl]
    exact congrArg _ (eq_zero_of_mant hx).symm
  · unfold shortest
    rw [if_neg hx]
    simp only
    split
    · next d hd =>
      obtain ⟨n, -, hn⟩ := List.exists_of_findSome?_eq_some hd
      exact (Decimal.round_stripZeros d 17).trans (readsAs_of_nearestOnGrid? hn)
    · by_cases he : 0 ≤ x.exp
      · exact exactDecimal_readsAs_of_nonneg hx he
      · exact exactDecimal_readsAs_of_neg hx he

end Binary64

end Chronicle
