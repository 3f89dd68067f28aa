import Chronicle.Time.Date

/-!
# The count of days

The date of a day exists and is counted as that day. Within a cycle of 400 years the year of a day is
found by a division that leaves out the leap days; it is checked for each century of the cycle.
-/

namespace Chronicle.Date

/-- The year of a cycle of 400 years in which its day `k` lies. -/
def yearOfDay (k : Nat) : Nat := (k - k / 1460 + k / 36524 - k / 146096) / 365

/-- The year of a day before the last day of the cycle, with the leap days not yet spread over the
years: `c` counts the centuries and `q` the leap days of a calendar without centuries, roughly. -/
theorem yearOfDay_bounds {k : Nat} (h : k < 146096) : ∃ c q, c ≤ 3 ∧
    (36524 * c ≤ k ∧ k < 36524 * c + 36524) ∧ (1460 * q ≤ k ∧ k < 1460 * q + 1460) ∧
    (365 * yearOfDay k + q ≤ k + c ∧ k + c < 365 * yearOfDay k + q + 365) := by
  have hlast : k / 146096 = 0 := by omega
  refine ⟨k / 36524, k / 1460, ?_⟩
  unfold yearOfDay
  rw [hlast]
  omega

theorem yearOfDay_century {k : Nat} (h : k < 146096) : ∃ c ≤ 3, yearOfDay k / 100 = c ∧
    365 * yearOfDay k + yearOfDay k / 4 ≤ k + c ∧ k + c ≤ 365 * yearOfDay k + yearOfDay k / 4 + 365 ∧
    (k + c = 365 * yearOfDay k + yearOfDay k / 4 + 365 → yearOfDay k % 4 = 3 ∧ yearOfDay k % 100 ≠ 99) := by
  obtain ⟨c, q, hc, hcentury, hquarter, hyear⟩ := yearOfDay_bounds h
  generalize yearOfDay k = y at *
  obtain ⟨a, b, hb, rfl⟩ : ∃ a b, b < 4 ∧ y = 4 * a + b := ⟨y / 4, y % 4, by omega, by omega⟩
  have hb : b = 0 ∨ b = 1 ∨ b = 2 ∨ b = 3 := by omega
  have hc : c = 0 ∨ c = 1 ∨ c = 2 ∨ c = 3 := by omega
  have ha : (4 * a + b) / 4 = a := by omega
  rw [ha]
  refine ⟨c, by omega, ?_, ?_, ?_, ?_⟩
  · rcases hc with rfl | rfl | rfl | rfl <;> omega
  · rcases hc with rfl | rfl | rfl | rfl <;> rcases hb with rfl | rfl | rfl | rfl <;> omega
  · rcases hc with rfl | rfl | rfl | rfl <;> rcases hb with rfl | rfl | rfl | rfl <;> omega
  · intro hk
    have hb : b = 3 := by rcases hc with rfl | rfl | rfl | rfl <;> omega
    refine ⟨by omega, ?_⟩
    rcases hc with rfl | rfl | rfl | rfl <;> omega

theorem isLeap_iff (year : Int) : isLeap year = true ↔ year % 4 = 0 ∧ (year % 100 ≠ 0 ∨ year % 400 = 0) := by
  simp [isLeap]

theorem yearOfDay_spec {k : Nat} (h : k < 146097) : yearOfDay k < 400 ∧ daysBeforeYear (yearOfDay k) ≤ k ∧
    k ≤ daysBeforeYear (yearOfDay k) + 365 ∧
    (k = daysBeforeYear (yearOfDay k) + 365 → isLeap (yearOfDay k + 1) = true) := by
  by_cases hlast : k = 146096
  · subst hlast
    decide
  · obtain ⟨c, hc, hcentury, hlow, hhigh, hleap⟩ := yearOfDay_century (k := k) (by omega)
    unfold daysBeforeYear
    rw [isLeap_iff]
    omega

theorem ofDays_eq (days : Int) : ∃ (cycle : Int) (y r m : Nat), y < 400 ∧ m < 12 ∧ daysBeforeMonth m ≤ r ∧
    r < daysBeforeMonth (m + 1) ∧ r ≤ 365 ∧ (r = 365 → isLeap (y + 1) = true) ∧
    days + 719468 = cycle * 146097 + daysBeforeYear y + r ∧
    ofDays days = if m < 10 then ⟨cycle * 400 + y, m + 3, r - daysBeforeMonth m + 1⟩
      else ⟨cycle * 400 + y + 1, m - 9, r - daysBeforeMonth m + 1⟩ := by
  let k := ((days + 719468) % 146097).toNat
  have hk : k < 146097 := by omega
  obtain ⟨hy, hlow, hhigh, hleap⟩ := yearOfDay_spec hk
  refine ⟨(days + 719468) / 146097, yearOfDay k, k - daysBeforeYear (yearOfDay k),
    (5 * (k - daysBeforeYear (yearOfDay k)) + 2) / 153, hy, by omega, ?_, ?_, by omega, ?_, by omega, rfl⟩
  · unfold daysBeforeMonth
    omega
  · unfold daysBeforeMonth
    omega
  · intro hr
    exact hleap (by omega)

/-- The date of a day is counted as that day. -/
theorem toDays_ofDays (days : Int) : (ofDays days).toDays = days := by
  obtain ⟨cycle, y, r, m, hy, hm, hr, -, -, -, hd, he⟩ := ofDays_eq days
  have hcycle : (cycle * 400 + y) / 400 = cycle := by omega
  have hyear : ((cycle * 400 + y) % 400).toNat = y := by omega
  rw [he]
  by_cases h10 : m < 10
  · rw [if_pos h10, toDays]
    simp only [if_neg (show ¬m + 3 ≤ 2 by omega), hcycle, hyear, Nat.add_sub_cancel]
    omega
  · rw [if_neg h10, toDays]
    simp only [if_pos (show m - 9 ≤ 2 by omega), Int.add_sub_cancel, hcycle, hyear,
      show m - 9 + 9 = m by omega]
    omega

theorem isLeap_add_cycle (cycle : Int) (y : Int) : isLeap (cycle * 400 + y) = isLeap y := by
  rw [Bool.eq_iff_iff, isLeap_iff, isLeap_iff]
  omega

theorem daysInMonth_eq {month : Nat} (h : month ≠ 2) (year year' : Int) :
    daysInMonth year month = daysInMonth year' month := by
  rw [daysInMonth, daysInMonth, if_neg h, if_neg h]

theorem daysBeforeMonth_succ {m : Nat} (hm : m < 10) (year : Int) :
    daysBeforeMonth (m + 1) = daysBeforeMonth m + daysInMonth year (m + 3) := by
  have hall : ∀ m < 10, daysBeforeMonth (m + 1) = daysBeforeMonth m + daysInMonth 0 (m + 3) := by decide
  rw [daysInMonth_eq (by omega) year 0, hall m hm]

theorem isValid_ofDays (days : Int) : (ofDays days).IsValid := by
  obtain ⟨cycle, y, r, m, hy, hm, hlow, hhigh, hr, hleap, -, he⟩ := ofDays_eq days
  rw [he]
  by_cases h10 : m < 10
  · have hlen := daysBeforeMonth_succ h10 (cycle * 400 + y)
    rw [if_pos h10, IsValid]
    simp only
    omega
  · rw [if_neg h10, IsValid]
    simp only
    by_cases hjan : m = 10
    · subst hjan
      have hlen : daysInMonth (cycle * 400 + y + 1) (10 - 9) = 31 := rfl
      simp only [daysBeforeMonth] at hlow hhigh ⊢
      omega
    · obtain rfl : m = 11 := by omega
      -- only here the year counts: February ends the year that begins in March
      have hlen : daysInMonth (cycle * 400 + y + 1) (11 - 9) = if isLeap (y + 1) then 29 else 28 := by
        rw [daysInMonth, if_pos rfl, Int.add_assoc, isLeap_add_cycle]
      simp only [daysBeforeMonth] at hlow hhigh ⊢
      by_cases h365 : r = 365
      · rw [hleap h365, if_pos rfl] at hlen
        omega
      · split at hlen <;> omega

end Chronicle.Date
