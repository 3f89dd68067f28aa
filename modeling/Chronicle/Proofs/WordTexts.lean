import Chronicle.Proofs.JsonLiterals
import Chronicle.Text.Digits

/-!
# Natural numbers of 64 bits as they are written

A word may be written with a plus sign in front and with needless zeros. In canonical decimal it has neither, and is
read back from its digits.
-/

namespace Chronicle

namespace Text

/-- A natural number of 64 bits as it may be written: decimal digits, perhaps with a plus sign in front. -/
def IsWord (text : List Char) (n : Nat) : Prop :=
  ∃ digits, (text = digits ∨ text = '+' :: digits) ∧ digits ≠ [] ∧ (∀ c ∈ digits, c.isDigit = true) ∧
    Nat.ofDigitChars 10 digits 0 = n ∧ n < twoTo 64

theorem digit?_ten (c : Char) : digit? 10 c = if c.isDigit then some (c.toNat - 48) else none := by
  have hzero : '0' ≤ c ↔ 48 ≤ c.toNat := UInt32.le_iff_toNat_le
  have hnine : c ≤ '9' ↔ c.toNat ≤ 57 := UInt32.le_iff_toNat_le
  have hlower : 'a' ≤ c ↔ 97 ≤ c.toNat := UInt32.le_iff_toNat_le
  have hupper : 'A' ≤ c ↔ 65 ≤ c.toNat := UInt32.le_iff_toNat_le
  have hdigit : c.isDigit = true ↔ 48 ≤ c.toNat ∧ c.toNat ≤ 57 := Char.isDigit_iff_toNat
  unfold digit?
  by_cases h : c.isDigit = true
  · have hvalue : c.toNat - 48 < 10 := by
      have := hdigit.mp h
      omega
    have hrange : '0' ≤ c ∧ c ≤ '9' := by rwa [hzero, hnine, ← hdigit]
    simp [h, hrange, hvalue]
  · have hrange : ¬('0' ≤ c ∧ c ≤ '9') := by rwa [hzero, hnine, ← hdigit]
    -- the letters are digits of greater bases only
    have hlow : 'a' ≤ c → 10 ≤ c.toNat - 87 := fun hc => by
      have := hlower.mp hc
      omega
    have hup : 'A' ≤ c → 10 ≤ c.toNat - 55 := fun hc => by
      have := hupper.mp hc
      omega
    rw [if_neg h]
    simp only [if_neg hrange]
    split
    · next hc => simpa using hlow hc.1
    · split
      · next hc => simpa using hup hc.1
      · rfl

theorem natural?_eq_some_iff {text : List Char} {n : Nat} : natural? 10 text = some n ↔
    text ≠ [] ∧ (∀ c ∈ text, c.isDigit = true) ∧ Nat.ofDigitChars 10 text 0 = n := by
  have hfold : ∀ (text : List Char) (m : Nat),
      text.foldlM (fun n c => (digit? 10 c).map (n * 10 + ·)) m = some n ↔
        (∀ c ∈ text, c.isDigit = true) ∧ Nat.ofDigitChars 10 text m = n := by
    intro text
    induction text with
    | nil => simp
    | cons c text ih =>
      intro m
      rw [List.foldlM_cons, digit?_ten]
      by_cases hc : c.isDigit = true
      · have hvalue : m * 10 + (c.toNat - 48) = 10 * m + (c.toNat - '0'.toNat) := by
          rw [Nat.mul_comm]
          rfl
        simp [hc, ih, hvalue, Nat.ofDigitChars_cons]
      · simp [hc]
  cases text with
  | nil => simp [natural?]
  | cons c text => simpa [natural?] using hfold (c :: text) 0

theorem dropPlus_of_digits {digits : List Char} (h : ∀ c ∈ digits, c.isDigit = true) : dropPlus digits = digits := by
  unfold dropPlus
  split
  · exact absurd (h '+' List.mem_cons_self) (by decide)
  · rfl

theorem word?_eq_some_iff {text : List Char} {n : Nat} : word? 10 text = some n ↔ IsWord text n := by
  rw [word?, Option.filter_eq_some_iff, natural?_eq_some_iff, decide_eq_true_eq]
  constructor
  · rintro ⟨⟨hne, hdigits, hvalue⟩, hlt⟩
    refine ⟨dropPlus text, ?_, hne, hdigits, hvalue, hlt⟩
    unfold dropPlus
    split
    · exact Or.inr rfl
    · exact Or.inl rfl
  · rintro ⟨digits, htext, hne, hdigits, hvalue, hlt⟩
    have hdrop : dropPlus text = digits := by
      rcases htext with rfl | rfl
      · exact dropPlus_of_digits hdigits
      · rfl
    rw [hdrop]
    exact ⟨⟨hne, hdigits, hvalue⟩, hlt⟩

theorem IsWord.isNumeric {text : List Char} {n : Nat} (h : IsWord text n) : ∀ c ∈ text, Document.IsNumeric c := by
  obtain ⟨digits, htext, -, hdigits, -⟩ := h
  intro c hc
  rcases htext with rfl | rfl
  · exact Or.inl (hdigits c hc)
  · rcases List.mem_cons.mp hc with rfl | hc
    · exact Or.inr (by decide)
    · exact Or.inl (hdigits c hc)

theorem exists_digit {c : Char} (h : c.isDigit = true) :
    ∃ d < 10, c.toNat - '0'.toNat = d ∧ Nat.toDigits 10 d = [c] ∧ (c ≠ '0' → 0 < d) := by
  have hrange : 48 ≤ c.toNat ∧ c.toNat ≤ 57 := Char.isDigit_iff_toNat.mp h
  have hzero : '0'.toNat = 48 := rfl
  have hlt : c.toNat - '0'.toNat < 10 := by omega
  refine ⟨c.toNat - '0'.toNat, hlt, rfl, ?_, fun hc => ?_⟩
  · rw [Nat.toDigits_of_lt_base hlt, List.singleton_inj, ← Char.toNat_inj, Nat.toNat_digitChar_of_lt_ten hlt]
    omega
  · have hne : c.toNat ≠ '0'.toNat := fun h => hc (Char.toNat_inj.mp h)
    omega

/-- Digits that are read on are the last digits of the number. -/
theorem toDigits_ofDigitChars {digits : List Char} (hd : ∀ c ∈ digits, c.isDigit = true) {n : Nat} (hn : 0 < n) :
    Nat.toDigits 10 (Nat.ofDigitChars 10 digits n) = Nat.toDigits 10 n ++ digits := by
  induction digits generalizing n with
  | nil => rw [Nat.ofDigitChars_nil, List.append_nil]
  | cons c digits ih =>
    obtain ⟨hc, hdigits⟩ := List.forall_mem_cons.mp hd
    obtain ⟨d, hlt, hvalue, hdigit, -⟩ := exists_digit hc
    calc Nat.toDigits 10 (Nat.ofDigitChars 10 (c :: digits) n)
        = Nat.toDigits 10 (10 * n + d) ++ digits := by rw [Nat.ofDigitChars_cons, hvalue, ih hdigits (by omega)]
      _ = Nat.toDigits 10 n ++ [c] ++ digits := by
          rw [← Nat.toDigits_append_toDigits (by decide) hn hlt, hdigit]
      _ = Nat.toDigits 10 n ++ c :: digits := by rw [List.append_assoc, List.singleton_append]

/-- Digits without a needless zero are the canonical decimal of the number that they say. -/
theorem toDigits_of_canonical {c : Char} {digits : List Char} (hd : ∀ d ∈ c :: digits, d.isDigit = true)
    (hc : c ≠ '0') : Nat.toDigits 10 (Nat.ofDigitChars 10 (c :: digits) 0) = c :: digits := by
  obtain ⟨hfirst, hdigits⟩ := List.forall_mem_cons.mp hd
  obtain ⟨d, -, hvalue, hdigit, hpos⟩ := exists_digit hfirst
  rw [Nat.ofDigitChars_cons, hvalue, Nat.mul_zero, Nat.zero_add, toDigits_ofDigitChars hdigits (hpos hc), hdigit,
    List.singleton_append]

theorem isWord_toDigits {n : Nat} (h : n < twoTo 64) : IsWord (Nat.toDigits 10 n) n :=
  ⟨_, Or.inl rfl, Nat.toDigits_ne_nil, fun _ => Document.isDigit_of_mem_toDigits, Nat.ofDigitChars_ten_toDigits, h⟩

end Text

end Chronicle
