import Chronicle.Number.Decimal
import Chronicle.Proofs.JsonLiterals
import Chronicle.Proofs.Rounding

/-!
# Numbers as they are written

Every number is written as a literal of JSON, whichever of its notations is used, so a reader passes over it. A literal
says a decimal, and that is the decimal that was written, perhaps with more zeros at its end. `Num.reading` is what the
reader makes of a number. That is the number itself as long as it reads back.
-/

namespace Chronicle

namespace Document

/-- The parts of a number: digits, a point and digits after it, and an exponent. The point and the exponent may be
missing. -/
structure Literal where
  whole : List Char
  point : List Char
  frac : List Char
  exp : List Char
  exponent : Option Int
  whole_eq : whole? whole = some (whole, [])
  frac_eq : frac? point = some (frac, [])
  exponent_eq : exponent? exp = some (exponent, [])
  head_point : ∀ c ∈ point.head?, c = '.'
  head_exp : ∀ c ∈ exp.head?, c = 'e'

namespace Literal

def chars (l : Literal) (neg : Bool) : List Char :=
  if neg then '-' :: (l.whole ++ (l.point ++ l.exp)) else l.whole ++ (l.point ++ l.exp)

/-- The decimal that the literal says. -/
def decimal (l : Literal) (neg : Bool) : Decimal :=
  ⟨neg, Nat.ofDigitChars 10 (l.whole ++ l.frac) 0, l.exponent.getD 0 - l.frac.length⟩

theorem head?_tail (l : Literal) : ∀ c ∈ (l.point ++ l.exp).head?, c = '.' ∨ c = 'e' := by
  intro c hc
  cases hp : l.point with
  | nil =>
    rw [hp, List.nil_append] at hc
    exact Or.inr (l.head_exp c hc)
  | cons d point =>
    rw [hp] at hc
    exact Or.inl (l.head_point c (hp ▸ hc))

theorem number?_chars (l : Literal) (neg : Bool) :
    number? (l.chars neg) = some (numberOfParts neg l.whole l.frac l.exponent, []) := by
  obtain ⟨-, hne, hdigits⟩ := whole?_eq l.whole_eq
  have hexp : ∀ c ∈ l.exp.head?, c.isDigit = false ∧ c ≠ '.' := by
    intro c hc
    rw [l.head_exp c hc]
    decide
  have htail : ∀ c ∈ (l.point ++ l.exp).head?, c.isDigit = false := by
    intro c hc
    rcases l.head?_tail c hc with rfl | rfl <;> decide
  have hwhole := whole?_append htail l.whole_eq
  have hrest := frac?_append hexp l.frac_eq
  rw [List.nil_append] at hwhole hrest
  have hminus : minus (l.chars neg) = (neg, l.whole ++ (l.point ++ l.exp)) := by
    cases neg with
    | true => rfl
    | false =>
      rw [chars, if_neg Bool.false_ne_true, minus]
      intro rest hr
      obtain ⟨c, whole, hw⟩ := List.exists_cons_of_ne_nil hne
      have hc := hdigits c (hw ▸ List.mem_cons_self)
      rw [hw] at hr
      rw [(List.cons.inj hr).1] at hc
      exact absurd hc (by decide)
  rw [number?, hminus]
  simp only [hwhole, hrest, l.exponent_eq, Option.bind_eq_bind, Option.bind_some]
  rfl

end Literal

theorem frac?_of_digits {ds : List Char} (hd : ∀ c ∈ ds, c.isDigit = true) (hne : ds ≠ []) :
    frac? ('.' :: ds) = some (ds, []) := by
  rw [frac?, spanDigits_eq_self hd]
  exact if_neg (by simpa using hne)

theorem exponent?_signed (e : Int) :
    exponent? ('e' :: (if e < 0 then '-' else '+') :: Nat.toDigits 10 e.natAbs) = some (some e, []) := by
  have hspan := spanDigits_eq_self fun c hc => isDigit_of_mem_toDigits (n := e.natAbs) hc
  have hempty : ¬(Nat.toDigits 10 e.natAbs).isEmpty = true := by simp [Nat.toDigits_ne_nil]
  by_cases he : e < 0
  · have hvalue : -(e.natAbs : Int) = e := by omega
    simp only [exponent?, if_pos he, true_or, if_true, Decimal.signOf, hspan, if_neg hempty,
      Nat.ofDigitChars_ten_toDigits, hvalue]
  · have hvalue : (e.natAbs : Int) = e := by omega
    simp only [exponent?, if_neg he, true_or, if_true, Decimal.signOf, hspan, if_neg hempty,
      Nat.ofDigitChars_ten_toDigits, hvalue, if_neg Bool.false_ne_true]

/-- The literal of an integer, its sign apart. -/
def integerLiteral (n : Nat) : Literal where
  whole := Nat.toDigits 10 n
  point := []
  frac := []
  exp := []
  exponent := none
  whole_eq := whole?_toDigits n
  frac_eq := rfl
  exponent_eq := rfl
  head_point := by simp
  head_exp := by simp

theorem decimal_eq_chars (n : Int) : Int.decimal n = (integerLiteral n.natAbs).chars (decide (n < 0)) := by
  simp [Int.decimal, Literal.chars, integerLiteral]

end Document

namespace Decimal
open Document

/-- The same value with `k` more zeros in its coefficient. -/
def withZeros (d : Decimal) (k : Nat) : Decimal := ⟨d.neg, d.coeff * tenTo k, d.exp - k⟩

theorem withZeros_zero (d : Decimal) : d.withZeros 0 = d := by
  have hcoeff : d.coeff * tenTo 0 = d.coeff := Nat.mul_one _
  have hexp : d.exp - (0 : Nat) = d.exp := Int.sub_zero _
  rw [withZeros, hcoeff, hexp]

variable {d : Decimal}

theorem isDigit_of_mem_digits {c : Char} (h : c ∈ d.digits) : c.isDigit = true := isDigit_of_mem_toDigits h

theorem digits_ne_nil : d.digits ≠ [] := Nat.toDigits_ne_nil

theorem head?_digits_ne_zero (h : d.coeff ≠ 0) : ∀ c ∈ d.digits.head?, c ≠ '0' :=
  head?_toDigits_ne_zero (Nat.pos_of_ne_zero h)

theorem isDigit_of_mem_zeros {n : Nat} {c : Char} (h : c ∈ List.replicate n '0') : c.isDigit = true := by
  rw [(List.mem_replicate.mp h).2]
  decide

theorem digits_of_zero (h : d.coeff = 0) : d.digits = ['0'] := by
  rw [digits, h]
  decide

/-- The digits in front of the point, in plain notation. -/
theorem whole?_plain {n : Nat} (h : d.coeff = 0 → n = 0) :
    whole? (d.digits.take (n + 1) ++ List.replicate (n + 1 - (d.digits.take (n + 1)).length) '0') =
      some (d.digits.take (n + 1) ++ List.replicate (n + 1 - (d.digits.take (n + 1)).length) '0', []) := by
  by_cases hz : d.coeff = 0
  · rw [digits_of_zero hz, h hz]
    rfl
  · apply whole?_of_digits
    · intro c hc
      exact (List.mem_append.mp hc).elim (fun hc => isDigit_of_mem_digits (List.mem_of_mem_take hc))
        isDigit_of_mem_zeros
    · simp [digits_ne_nil]
    · have hhead := head?_digits_ne_zero hz
      obtain ⟨c, ds, hds⟩ := List.exists_cons_of_ne_nil (digits_ne_nil (d := d))
      rw [hds] at hhead ⊢
      exact hhead

theorem ofDigitChars_zeros (k n : Nat) : Nat.ofDigitChars 10 (List.replicate k '0') n = n * tenTo k := by
  induction k generalizing n with
  | zero => exact (Nat.mul_one n).symm
  | succ k ih =>
    have hten : tenTo (k + 1) = 10 * tenTo k := by
      rw [Nat.add_comm, tenTo_add]
      rfl
    rw [List.replicate_succ, Nat.ofDigitChars_cons, ih, hten]
    have hzero : '0'.toNat - '0'.toNat = 0 := rfl
    rw [hzero, Nat.add_zero]
    ac_rfl

theorem ofDigitChars_digits (d : Decimal) : Nat.ofDigitChars 10 d.digits 0 = d.coeff := Nat.ofDigitChars_ten_toDigits

/-- Plain notation, with one digit more than `n` in front of the point. -/
def plainLiteral (d : Decimal) (n : Nat) (h : d.coeff = 0 → n = 0) : Literal where
  whole := d.digits.take (n + 1) ++ List.replicate (n + 1 - (d.digits.take (n + 1)).length) '0'
  point := '.' :: (if (d.digits.drop (n + 1)).isEmpty then ['0'] else d.digits.drop (n + 1))
  frac := if (d.digits.drop (n + 1)).isEmpty then ['0'] else d.digits.drop (n + 1)
  exp := []
  exponent := none
  whole_eq := whole?_plain h
  frac_eq := by
    split
    · rfl
    · next hne =>
      exact frac?_of_digits (fun c hc => isDigit_of_mem_digits (List.mem_of_mem_drop hc)) (by simpa using hne)
  exponent_eq := rfl
  head_point := by simp
  head_exp := by simp

theorem decimal_plainLiteral {n : Nat} (h : d.coeff = 0 → n = 0) (hn : (n : Int) = d.exp + d.digits.length - 1) :
    ∃ k ≤ (d.exp + 1).toNat, (d.plainLiteral n h).decimal d.neg = d.withZeros k := by
  have hpos := List.length_pos_iff.mpr (digits_ne_nil (d := d))
  by_cases hlong : d.digits.length ≤ n + 1
  · have hdrop : d.digits.drop (n + 1) = [] := List.drop_eq_nil_of_le hlong
    have htake : d.digits.take (n + 1) = d.digits := List.take_of_length_le hlong
    have hzeros : List.replicate (n + 1 - d.digits.length) '0' ++ ['0'] =
        List.replicate (n + 2 - d.digits.length) '0' := by
      rw [← List.replicate_succ']
      exact congrArg (List.replicate · '0') (by omega)
    have hexp : (0 : Int) - (1 : Nat) = d.exp - (n + 2 - d.digits.length : Nat) := by omega
    refine ⟨n + 2 - d.digits.length, by omega, ?_⟩
    simp only [Literal.decimal, plainLiteral, hdrop, htake, List.isEmpty_nil, if_true, List.append_assoc, hzeros,
      Nat.ofDigitChars_append, ofDigitChars_digits, ofDigitChars_zeros, Option.getD_none, List.length_singleton, hexp]
    rfl
  · have hdrop : ¬(d.digits.drop (n + 1)).isEmpty = true := by
      rw [List.isEmpty_iff, List.drop_eq_nil_iff]
      exact hlong
    have htake : (d.digits.take (n + 1)).length = n + 1 := List.length_take_of_le (by omega)
    have hexp : (0 : Int) - (d.digits.length - (n + 1) : Nat) = d.exp := by omega
    refine ⟨0, Nat.zero_le _, ?_⟩
    simp only [Literal.decimal, plainLiteral, if_neg hdrop, htake, Nat.sub_self, List.replicate_zero, List.append_nil,
      List.take_append_drop, ofDigitChars_digits, Option.getD_none, List.length_drop, hexp, withZeros_zero]

/-- Plain notation, with `k` zeros between the point and the digits. -/
def smallLiteral (d : Decimal) (k : Nat) : Literal where
  whole := ['0']
  point := '.' :: (List.replicate k '0' ++ d.digits)
  frac := List.replicate k '0' ++ d.digits
  exp := []
  exponent := none
  whole_eq := rfl
  frac_eq := by
    apply frac?_of_digits
    · exact fun c hc => (List.mem_append.mp hc).elim isDigit_of_mem_zeros isDigit_of_mem_digits
    · simp [digits_ne_nil]
  exponent_eq := rfl
  head_point := by simp
  head_exp := by simp

theorem decimal_smallLiteral {k : Nat} (hk : (k : Int) + d.exp + d.digits.length = 0) :
    (d.smallLiteral k).decimal d.neg = d := by
  have hzeros : ['0'] ++ (List.replicate k '0' ++ d.digits) = List.replicate (k + 1) '0' ++ d.digits := by
    rw [← List.append_assoc, List.singleton_append, List.replicate_succ]
  have hexp : (0 : Int) - (k + d.digits.length : Nat) = d.exp := by omega
  simp only [Literal.decimal, smallLiteral, hzeros, Nat.ofDigitChars_append, ofDigitChars_zeros, Nat.zero_mul,
    ofDigitChars_digits, Option.getD_none, List.length_append, List.length_replicate, hexp]

def scientificLiteral (d : Decimal) (e : Int) : Literal where
  whole := d.digits.take 1
  point := if d.digits.length = 1 then [] else '.' :: d.digits.drop 1
  frac := d.digits.drop 1
  exp := 'e' :: (if e < 0 then '-' else '+') :: Nat.toDigits 10 e.natAbs
  exponent := some e
  whole_eq := by
    have hlength : (d.digits.take 1).length = 1 := by
      have hpos := List.length_pos_iff.mpr (digits_ne_nil (d := d))
      rw [List.length_take]
      omega
    have hwhole := whole?_plain (d := d) (n := 0) fun _ => rfl
    rwa [hlength, Nat.sub_self, List.replicate_zero, List.append_nil] at hwhole
  frac_eq := by
    have hpos := List.length_pos_iff.mpr (digits_ne_nil (d := d))
    split
    · next h =>
      rw [List.drop_eq_nil_of_le (Nat.le_of_eq h)]
      rfl
    · refine frac?_of_digits (fun c hc => isDigit_of_mem_digits (List.mem_of_mem_drop hc)) ?_
      rw [← List.length_pos_iff, List.length_drop]
      omega
  exponent_eq := exponent?_signed e
  head_point := by split <;> simp
  head_exp := by simp

theorem decimal_scientificLiteral {e : Int} (he : e = d.exp + d.digits.length - 1) :
    (d.scientificLiteral e).decimal d.neg = d := by
  have hpos := List.length_pos_iff.mpr (digits_ne_nil (d := d))
  have hexp : e - (d.digits.length - 1 : Nat) = d.exp := by omega
  simp only [Literal.decimal, scientificLiteral, List.take_append_drop, ofDigitChars_digits, Option.getD_some,
    List.length_drop, hexp]

/-- The literal as which a decimal is written says the decimal, perhaps with more zeros at its end, up to the first
place after the point, and it is no integer literal. -/
structure Spells (d : Decimal) (l : Literal) : Prop where
  decimal : ∃ k ≤ (d.exp + 1).toNat, l.decimal d.neg = d.withZeros k
  fractional : l.frac ≠ [] ∨ l.exponent.isSome = true

theorem exists_spells (h : d.coeff = 0 → d.exp = 0) : ∃ l : Literal, d.render = l.chars d.neg ∧ d.Spells l := by
  have hcases (c c' : Prop) [Decidable c] [Decidable c'] {plain small scientific : List Char}
      (hp : c → ∃ l : Literal, plain = l.whole ++ (l.point ++ l.exp) ∧ d.Spells l)
      (hs : c' → ∃ l : Literal, small = l.whole ++ (l.point ++ l.exp) ∧ d.Spells l)
      (he : ∃ l : Literal, scientific = l.whole ++ (l.point ++ l.exp) ∧ d.Spells l) :
      ∃ l : Literal, (if c then plain else if c' then small else scientific) = l.whole ++ (l.point ++ l.exp) ∧
        d.Spells l := by
    split
    · next h => exact hp h
    · split
      · next h => exact hs h
      · exact he
  have hsigned {body : List Char} (hb : ∃ l : Literal, body = l.whole ++ (l.point ++ l.exp) ∧ d.Spells l) :
      ∃ l : Literal, (if d.neg then '-' :: body else body) = l.chars d.neg ∧ d.Spells l := by
    obtain ⟨l, rfl, hl⟩ := hb
    exact ⟨l, rfl, hl⟩
  refine hsigned (hcases _ _ (fun hrange => ?_) (fun hrange => ?_) ?_)
  · have hzero : d.coeff = 0 → (d.exp + d.digits.length - 1).toNat = 0 := by
      intro hz
      rw [h hz, digits_of_zero hz]
      rfl
    refine ⟨d.plainLiteral _ hzero, by simp [plainLiteral], decimal_plainLiteral hzero (by omega), Or.inl ?_⟩
    simp only [plainLiteral]
    split
    · exact List.cons_ne_nil _ _
    · next hne => simpa using hne
  · refine ⟨d.smallLiteral (-(d.exp + d.digits.length - 1) - 1).toNat, by simp [smallLiteral], ⟨0, Nat.zero_le _, ?_⟩,
      Or.inl (by simp [smallLiteral, digits_ne_nil])⟩
    rw [withZeros_zero]
    exact decimal_smallLiteral (by omega)
  · refine ⟨d.scientificLiteral (d.exp + d.digits.length - 1), by simp [scientificLiteral],
      ⟨0, Nat.zero_le _, ?_⟩, Or.inr rfl⟩
    rw [withZeros_zero]
    exact decimal_scientificLiteral rfl

/-! A number other than zero is written with digits other than zero. -/

theorem coeff_stripZeros (d : Decimal) (h : d.coeff ≠ 0) (fuel : Nat) : (d.stripZeros fuel).coeff ≠ 0 := by
  induction fuel generalizing d with
  | zero => exact h
  | succ fuel ih =>
    rw [stripZeros]
    split
    · next hten => exact ih _ (by simp only; omega)
    · exact h

theorem coeff_of_readsAs {x : Binary64} (hx : x.mant ≠ 0) (h : d.ReadsAs x) : d.coeff ≠ 0 := by
  intro hz
  rw [ReadsAs, round, if_pos hz] at h
  rw [← Rounded.finite.inj h] at hx
  exact hx rfl

end Decimal

namespace Binary64

theorem roundHalfEven_cases (num den : Nat) :
    roundHalfEven num den = num / den ∨ roundHalfEven num den = num / den + 1 := by
  unfold roundHalfEven
  simp only
  split
  · exact Or.inl rfl
  · exact Or.inr rfl
  · split
    · exact Or.inl rfl
    · exact Or.inr rfl

theorem coeff_of_nearestOnGrid? {x : Binary64} (hx : x.mant ≠ 0) {g : Int} {d : Decimal}
    (h : x.nearestOnGrid? g = some d) : d.coeff ≠ 0 := by
  unfold nearestOnGrid? at h
  simp only at h
  split at h
  · next hbelow habove =>
    have hpos := Decimal.coeff_of_readsAs hx (of_decide_eq_true hbelow)
    simp only at hpos
    rw [← Option.some.inj h]
    rcases roundHalfEven_cases (x.mant * twoTo x.exp.toNat * tenTo (-g).toNat)
      (twoTo (-x.exp).toNat * tenTo g.toNat) with he | he
    · rwa [he]
    · rw [he]
      exact Nat.succ_ne_zero _
  · next hbelow _ =>
    rw [← Option.some.inj h]
    exact Decimal.coeff_of_readsAs hx (of_decide_eq_true hbelow)
  · rw [← Option.some.inj h]
    exact Nat.succ_ne_zero _
  · exact absurd h (by simp)

theorem coeff_shortest {x : Binary64} (hx : x.mant ≠ 0) : x.shortest.coeff ≠ 0 := by
  unfold shortest
  rw [if_neg hx]
  simp only
  split
  · next d hd =>
    obtain ⟨n, -, hn⟩ := List.exists_of_findSome?_eq_some hd
    exact Decimal.coeff_stripZeros d (coeff_of_nearestOnGrid? hx hn) 17
  · unfold exactDecimal
    split
    · exact Nat.mul_ne_zero hx (Nat.ne_of_gt (Nat.pow_pos (by decide)))
    · exact Nat.mul_ne_zero hx (Nat.ne_of_gt (Nat.pow_pos (by decide)))

theorem exp_shortest {x : Binary64} (h : x.shortest.coeff = 0) : x.shortest.exp = 0 := by
  have hx : x.mant = 0 := Decidable.not_not.mp fun hx => coeff_shortest hx h
  rw [shortest, if_pos hx]

end Binary64

namespace Num

/-- A number is written as a literal. -/
theorem exists_literal (n : Num) : ∃ (l : Document.Literal) (neg : Bool), n.render = l.chars neg := by
  cases n with
  | int n => exact ⟨_, _, Document.decimal_eq_chars n⟩
  | float x =>
    obtain ⟨l, hl, -⟩ := Decimal.exists_spells x.exp_shortest
    exact ⟨l, _, hl⟩

/-- The document as which a number is read where it has been written. -/
def reading (n : Num) : Document := ((Document.number? n.render).map (·.1)).getD .unreadable

theorem number?_render (n : Num) : Document.number? n.render = some (n.reading, []) := by
  obtain ⟨l, neg, hl⟩ := exists_literal n
  rw [reading, hl, l.number?_chars]
  rfl

theorem readsBack_iff {n : Num} : n.ReadsBack ↔ n.reading = .num n := by
  rw [ReadsBack, number?_render]
  simp

end Num

end Chronicle
