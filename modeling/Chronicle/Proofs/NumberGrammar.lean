import Mathlib.Data.Nat.Digits.Lemmas
import Mathlib.Tactic.Ring
import Chronicle.Proofs.RoundedResults
import Chronicle.Proofs.TokenGrammar

/-!
# The grammar of numbers

A number in a field is a word in a base that it names, or a decimal. The grammar of both is stated apart from their
readers: a word has digits of its base, and a decimal has a sign, digits with a point, and an exponent. The readers read
exactly the texts of the grammar, and read them as what it says.
-/

namespace Chronicle

namespace Text

/-- A digit of a base up to sixteen; letters may be of either case. -/
def IsDigitOf (base : Nat) (c : Char) (d : Nat) : Prop := d < base ∧ (c = d.digitChar ∨ c = d.digitChar.toUpper)

/-- A natural number as it may be written in a base: digits, perhaps with a plus sign in front. -/
def IsNumeral (base : Nat) (text : List Char) (n : Nat) : Prop :=
  ∃ digits values, (text = digits ∨ text = '+' :: digits) ∧ digits ≠ [] ∧
    List.Forall₂ (IsDigitOf base) digits values ∧ Nat.ofDigits base values.reverse = n

variable {base n d : Nat} {c : Char} {text digits : List Char}

theorem digit?_sixteen : digit? 16 c = some d ↔ IsDigitOf 16 c d := by
  have hdigit : ∀ d < 10, Char.ofNat (d + 48) = d.digitChar := by decide
  have hlower : ∀ d < 16, 10 ≤ d → Char.ofNat (d + 87) = d.digitChar := by decide
  have hupper : ∀ d < 16, 10 ≤ d → Char.ofNat (d + 55) = d.digitChar.toUpper := by decide
  have hread : ∀ d < 16, digit? 16 d.digitChar = some d ∧ digit? 16 d.digitChar.toUpper = some d := by decide
  constructor
  · intro h
    obtain ⟨h, hlt⟩ := Option.filter_eq_some_iff.mp h
    refine ⟨of_decide_eq_true hlt, ?_⟩
    rw [← c.ofNat_toNat]
    split at h
    · next hc =>
      have hlow : 48 ≤ c.toNat := UInt32.le_iff_toNat_le.mp hc.1
      have hhigh : c.toNat ≤ 57 := UInt32.le_iff_toNat_le.mp hc.2
      have hd := Option.some.inj h
      rw [← hdigit d (by omega)]
      exact Or.inl (congrArg _ (by omega))
    · split at h
      · next hc =>
        have hlow : 97 ≤ c.toNat := UInt32.le_iff_toNat_le.mp hc.1
        have hhigh : c.toNat ≤ 102 := UInt32.le_iff_toNat_le.mp hc.2
        have hd := Option.some.inj h
        rw [← hlower d (by omega) (by omega)]
        exact Or.inl (congrArg _ (by omega))
      · split at h
        · next hc =>
          have hlow : 65 ≤ c.toNat := UInt32.le_iff_toNat_le.mp hc.1
          have hhigh : c.toNat ≤ 70 := UInt32.le_iff_toNat_le.mp hc.2
          have hd := Option.some.inj h
          rw [← hupper d (by omega) (by omega)]
          exact Or.inr (congrArg _ (by omega))
        · exact absurd h (by simp)
  · rintro ⟨hd, rfl | rfl⟩
    · exact (hread d hd).1
    · exact (hread d hd).2

/-- The digits of a smaller base are those of base sixteen that are below it. -/
theorem digit?_eq_some_iff (hb : base ≤ 16) : digit? base c = some d ↔ IsDigitOf base c d := by
  have hiff : digit? base c = some d ↔ digit? 16 c = some d ∧ d < base := by
    simp only [digit?, Option.filter_eq_some_iff, decide_eq_true_eq]
    exact ⟨fun ⟨h, hlt⟩ => ⟨⟨h, hlt.trans_le hb⟩, hlt⟩, fun ⟨⟨h, _⟩, hlt⟩ => ⟨h, hlt⟩⟩
  rw [hiff, digit?_sixteen]
  exact ⟨fun ⟨h, hlt⟩ => ⟨hlt, h.2⟩, fun h => ⟨⟨h.1.trans_le hb, h.2⟩, h.1⟩⟩

theorem foldlM_digits (hb : base ≤ 16) (text : List Char) (m : Nat) :
    text.foldlM (fun n c => (digit? base c).map (n * base + ·)) m = some n ↔
      ∃ values, List.Forall₂ (IsDigitOf base) text values ∧
        m * base ^ text.length + Nat.ofDigits base values.reverse = n := by
  induction text generalizing m with
  | nil => simp
  | cons c text ih =>
    have hsum (d : Nat) {values : List Nat} (hv : List.Forall₂ (IsDigitOf base) text values) :
        m * base ^ (c :: text).length + Nat.ofDigits base (d :: values).reverse =
          (m * base + d) * base ^ text.length + Nat.ofDigits base values.reverse := by
      rw [List.reverse_cons, Nat.ofDigits_append, List.length_reverse, ← hv.length_eq, Nat.ofDigits_singleton,
        List.length_cons]
      ring
    simp only [List.foldlM_cons, List.forall₂_cons_left_iff, Option.bind_eq_bind, Option.bind_map,
      Option.bind_eq_some_iff, Function.comp_apply, digit?_eq_some_iff hb, ih]
    constructor
    · rintro ⟨d, hd, values, hv, rfl⟩
      exact ⟨_, ⟨d, values, hd, hv, rfl⟩, hsum d hv⟩
    · rintro ⟨_, ⟨d, values, hd, hv, rfl⟩, rfl⟩
      exact ⟨d, hd, values, hv, (hsum d hv).symm⟩

theorem natural?_eq_some_iff_exists (hb : base ≤ 16) : natural? base text = some n ↔
    text ≠ [] ∧ ∃ values, List.Forall₂ (IsDigitOf base) text values ∧ Nat.ofDigits base values.reverse = n := by
  cases text with
  | nil => simp [natural?]
  | cons c text => simpa [natural?] using foldlM_digits (n := n) hb (c :: text) 0

theorem dropPlus_eq_self (hb : base ≤ 16) {values : List Nat} (h : List.Forall₂ (IsDigitOf base) digits values) :
    dropPlus digits = digits := by
  unfold dropPlus
  split
  · have hplus : digit? 16 '+' = none := by decide
    cases h with
    | cons hc _ => exact absurd ((digit?_eq_some_iff le_rfl).mpr ⟨hc.1.trans_le hb, hc.2⟩) (by simp [hplus])
  · rfl

/-- Words are read in a base exactly if they are numerals of it below `2 ^ 64`. -/
theorem word?_eq_some_iff_isNumeral (hb : base ≤ 16) :
    word? base text = some n ↔ IsNumeral base text n ∧ n < 2 ^ 64 := by
  rw [word?, Option.filter_eq_some_iff, natural?_eq_some_iff_exists hb, decide_eq_true_eq]
  constructor
  · rintro ⟨⟨hne, values, hdigits, hvalue⟩, hlt⟩
    refine ⟨⟨dropPlus text, values, ?_, hne, hdigits, hvalue⟩, hlt⟩
    unfold dropPlus
    split
    · exact Or.inr rfl
    · exact Or.inl rfl
  · rintro ⟨⟨digits, values, htext, hne, hdigits, hvalue⟩, hlt⟩
    have hdrop : dropPlus text = digits := by
      rcases htext with rfl | rfl
      · exact dropPlus_eq_self hb hdigits
      · rfl
    rw [hdrop]
    exact ⟨⟨hne, values, hdigits, hvalue⟩, hlt⟩

end Text

namespace Decimal

/-- A sign, which may be missing, and whether it is a minus. -/
inductive IsSign : List Char → Bool → Prop
  | none : IsSign [] false
  | plus : IsSign ['+'] false
  | minus : IsSign ['-'] true

/-- A text of digits. -/
def IsDigits (text : List Char) : Prop := ∀ c ∈ text, c.isDigit = true

instance (text : List Char) : Decidable (IsDigits text) :=
  decidable_of_iff (text.all Char.isDigit = true) List.all_eq_true

/-- Digits with a point and more digits, which may be missing, or a point and digits. -/
inductive IsMantissa : List Char → List Char → List Char → Prop
  | whole {whole : List Char} (hne : whole ≠ []) (hw : IsDigits whole) : IsMantissa whole whole []
  | point {whole frac : List Char} (hne : whole ≠ []) (hw : IsDigits whole) (hf : IsDigits frac) :
    IsMantissa (whole ++ '.' :: frac) whole frac
  | fraction {frac : List Char} (hne : frac ≠ []) (hf : IsDigits frac) : IsMantissa ('.' :: frac) [] frac

/-- An integer as it may be written in base ten: a sign, which may be missing, and digits. -/
inductive IsInteger : List Char → Int → Prop
  | mk {sign digits : List Char} {neg : Bool} (hs : IsSign sign neg) (hne : digits ≠ []) (hd : IsDigits digits) :
    IsInteger (sign ++ digits) (if neg then -(Nat.ofDigitChars 10 digits 0 : Int) else Nat.ofDigitChars 10 digits 0)

/-- An exponent, which may be missing: a mark and an integer. -/
inductive IsExponent : List Char → Int → Prop
  | none : IsExponent [] 0
  | marked {mark : Char} {text : List Char} {e : Int} (hm : mark = 'e' ∨ mark = 'E') (he : IsInteger text e) :
    IsExponent (mark :: text) e

/-- A text that is a decimal, and the decimal that it is. -/
inductive IsDecimal : List Char → Decimal → Prop
  | mk {sign mantissa whole frac exponent : List Char} {neg : Bool} {e : Int} (hs : IsSign sign neg)
    (hm : IsMantissa mantissa whole frac) (he : IsExponent exponent e) :
    IsDecimal (sign ++ (mantissa ++ exponent)) ⟨neg, Nat.ofDigitChars 10 (whole ++ frac) 0, e - frac.length⟩

variable {text whole frac : List Char} {neg : Bool} {e : Int} {d : Decimal}

theorem signOf_spec (text : List Char) : ∃ sign, IsSign sign (signOf text).1 ∧ text = sign ++ (signOf text).2 := by
  unfold signOf
  split
  · exact ⟨['-'], .minus, rfl⟩
  · exact ⟨['+'], .plus, rfl⟩
  · exact ⟨[], .none, rfl⟩

/-- A sign is read up to what is no sign. -/
theorem signOf_sign {sign : List Char} (hs : IsSign sign neg) (h : ∀ c ∈ text.head?, c.isDigit = true ∨ c = '.') :
    signOf (sign ++ text) = (neg, text) := by
  cases hs with
  | plus | minus => rfl
  | none =>
    rw [List.nil_append, signOf]
    · rintro rest rfl
      exact absurd (h '-' rfl) (by decide)
    · rintro rest rfl
      exact absurd (h '+' rfl) (by decide)

theorem IsDigits.head? (h : IsDigits text) : ∀ c ∈ text.head?, c.isDigit = true ∨ c = '.' :=
  fun c hc => Or.inl (h c (List.mem_of_mem_head? hc))

theorem isDigits_spanDigits (text : List Char) : IsDigits (Text.spanDigits text).1 := Text.all_cut _ text

theorem spanDigits_digits (h : IsDigits whole) {rest : List Char} (hr : ∀ c ∈ rest.head?, c.isDigit = false) :
    Text.spanDigits (whole ++ rest) = (whole, rest) := Text.cut_append_of_head h hr

theorem exponentOf?_eq_some_iff : exponentOf? text = some e ↔ IsExponent text e := by
  constructor
  · intro h
    cases text with
    | nil => exact Option.some.inj h ▸ .none
    | cons mark rest =>
      rw [exponentOf?] at h
      split at h
      · next hm =>
        obtain ⟨sign, hs, hrest⟩ := signOf_spec rest
        have hdigits := isDigits_spanDigits (signOf rest).2
        have happend := Text.cut_append Char.isDigit (signOf rest).2
        simp only at h
        split at h
        · next c digits hspan =>
          rw [hspan] at hdigits
          rw [← Text.spanDigits, hspan, List.append_nil] at happend
          rw [hrest, ← happend, ← Option.some.inj h]
          exact .marked hm (.mk hs (List.cons_ne_nil _ _) hdigits)
        · exact absurd h (by simp)
      · exact absurd h (by simp)
  · rintro (_ | ⟨hm, ⟨hs, hne, hd⟩⟩)
    · rfl
    · obtain ⟨c, digits, rfl⟩ := List.exists_cons_of_ne_nil hne
      simp only [exponentOf?, if_pos hm, signOf_sign hs hd.head?, Document.spanDigits_eq_self hd]

theorem IsExponent.head? {exponent : List Char} (h : IsExponent exponent e) :
    ∀ c ∈ exponent.head?, c.isDigit = false ∧ c ≠ '.' := by
  cases h with
  | none => simp
  | marked hm _ =>
    intro c hc
    rw [← Option.some.inj hc]
    rcases hm with rfl | rfl <;> decide

section Parts

variable {exponent : List Char}

theorem ofChars?_whole (hsign : signOf text = (neg, whole ++ exponent)) (hw : IsDigits whole)
    (he : ∀ c ∈ exponent.head?, c.isDigit = false ∧ c ≠ '.') : ofChars? text =
      if whole = [] then none
      else (exponentOf? exponent).map fun e =>
        ⟨neg, Nat.ofDigitChars 10 (whole ++ []) 0, e - ([] : List Char).length⟩ := by
  rw [ofChars?, hsign]
  simp only [spanDigits_digits hw fun c hc => (he c hc).1]
  split
  · exact absurd rfl (he '.' rfl).2
  · simp

theorem ofChars?_point (hsign : signOf text = (neg, whole ++ '.' :: (frac ++ exponent))) (hw : IsDigits whole)
    (hf : IsDigits frac) (he : ∀ c ∈ exponent.head?, c.isDigit = false) : ofChars? text =
      if whole = [] ∧ frac = [] then none
      else (exponentOf? exponent).map fun e => ⟨neg, Nat.ofDigitChars 10 (whole ++ frac) 0, e - frac.length⟩ := by
  have hpoint : ∀ c ∈ ('.' :: (frac ++ exponent)).head?, c.isDigit = false := by simp
  rw [ofChars?, hsign]
  simp only [spanDigits_digits hw hpoint, spanDigits_digits hf he, List.isEmpty_iff]

end Parts

theorem exists_spanDigits (text : List Char) : ∃ run rest, text = run ++ rest ∧ IsDigits run ∧
    ∀ c ∈ rest.head?, c.isDigit = false :=
  ⟨_, _, (Text.cut_append Char.isDigit text).symm, Text.all_cut _ text, Text.head?_cut _ text⟩

/-- A mantissa begins with a digit or a point. -/
theorem IsMantissa.head? {mantissa : List Char} (h : IsMantissa mantissa whole frac) (rest : List Char) :
    ∀ c ∈ (mantissa ++ rest).head?, c.isDigit = true ∨ c = '.' := by
  have hwhole {whole : List Char} (hne : whole ≠ []) (hw : IsDigits whole) (rest : List Char) :
      ∀ c ∈ (whole ++ rest).head?, c.isDigit = true ∨ c = '.' := by
    obtain ⟨c, whole, rfl⟩ := List.exists_cons_of_ne_nil hne
    intro d hd
    rw [← Option.some.inj hd]
    exact Or.inl (hw c List.mem_cons_self)
  cases h with
  | whole hne hw => exact hwhole hne hw rest
  | point hne hw hf =>
    rw [List.append_assoc]
    exact hwhole hne hw _
  | fraction hne hf => exact fun c hc => Or.inr (Option.some.inj hc).symm

/-- Decimals are read exactly from the texts of the grammar, as what it says. -/
theorem ofChars?_eq_some_iff : ofChars? text = some d ↔ IsDecimal text d := by
  constructor
  · intro h
    obtain ⟨sign, hs, htext⟩ := signOf_spec text
    obtain ⟨whole, tail, hrest, hw, htail⟩ := exists_spanDigits (signOf text).2
    rw [htext, hrest]
    by_cases hpoint : '.' ∈ tail.head?
    · obtain ⟨rest, rfl⟩ := List.head?_eq_some_iff.mp hpoint
      obtain ⟨frac, exponent, rfl, hf, he⟩ := exists_spanDigits rest
      rw [ofChars?_point (Prod.ext rfl hrest) hw hf he, Option.ite_none_left_eq_some] at h
      obtain ⟨hne, h⟩ := h
      obtain ⟨e, hexp, rfl⟩ := Option.map_eq_some_iff.mp h
      have hexp := exponentOf?_eq_some_iff.mp hexp
      by_cases hwhole : whole = []
      · subst hwhole
        have hmantissa : IsMantissa ('.' :: frac) [] frac := .fraction (fun hfrac => hne ⟨rfl, hfrac⟩) hf
        have hdecimal := IsDecimal.mk hs hmantissa hexp
        exact hdecimal
      · have hdecimal := IsDecimal.mk hs (.point hwhole hw hf) hexp
        rwa [List.append_assoc, List.cons_append] at hdecimal
    · rw [ofChars?_whole (Prod.ext rfl hrest) hw fun c hc => ⟨htail c hc, fun hp => hpoint (hp ▸ hc)⟩,
        Option.ite_none_left_eq_some] at h
      obtain ⟨hne, h⟩ := h
      obtain ⟨e, hexp, rfl⟩ := Option.map_eq_some_iff.mp h
      exact .mk hs (.whole hne hw) (exponentOf?_eq_some_iff.mp hexp)
  · rintro @⟨sign, mantissa, whole, frac, exponent, neg, e, hs, hm, he⟩
    have hexp := exponentOf?_eq_some_iff.mpr he
    have hsign := signOf_sign hs (hm.head? exponent)
    cases hm with
    | whole hne hw => rw [ofChars?_whole hsign hw he.head?, if_neg hne, hexp, Option.map_some]
    | point hne hw hf =>
      rw [List.append_assoc, List.cons_append] at hsign
      rw [List.append_assoc, List.cons_append, ofChars?_point hsign hw hf fun c hc => (he.head? c hc).1,
        if_neg fun hnil => hne hnil.1, hexp, Option.map_some]
    | fraction hne hf =>
      have hnone : IsDigits [] := by simp [IsDigits]
      rw [ofChars?_point hsign hnone hf fun c hc => (he.head? c hc).1, if_neg fun hnil => hne hnil.2, hexp,
        Option.map_some]

end Decimal

namespace Binary64

/-- The marks after a zero that name a base. -/
def baseMarks : List (Char × Nat) := [('x', 16), ('X', 16), ('o', 8), ('O', 8), ('b', 2), ('B', 2)]

/-- A text names the base in which the rest of it is to be read. -/
def NamesBase (text : List Char) (base : Nat) (rest : List Char) : Prop :=
  ∃ mark, (mark, base) ∈ baseMarks ∧ text = '0' :: mark :: rest

variable {text : String} {base : Nat} {rest : List Char}

theorem ofText?_of_namesBase (h : NamesBase (Text.trim text.toList) base rest) :
    ofText? text = (Text.word? base rest).bind fun n => (ofInt n).toOption := by
  obtain ⟨mark, hm, htext⟩ := h
  simp only [baseMarks, List.mem_cons, Prod.mk.injEq, List.not_mem_nil, or_false] at hm
  rw [ofText?, htext]
  rcases hm with ⟨rfl, rfl⟩ | ⟨rfl, rfl⟩ | ⟨rfl, rfl⟩ | ⟨rfl, rfl⟩ | ⟨rfl, rfl⟩ | ⟨rfl, rfl⟩ <;> rfl

theorem ofText?_of_not_namesBase (h : ∀ base rest, ¬NamesBase (Text.trim text.toList) base rest) :
    ofText? text = (Decimal.ofChars? (Text.trim text.toList)).bind fun d => d.round.toOption := by
  have hmark : ∀ mark base, (mark, base) ∈ baseMarks → ∀ rest, Text.trim text.toList ≠ '0' :: mark :: rest :=
    fun mark base hm rest htext => h base rest ⟨mark, hm, htext⟩
  rw [ofText?]
  split
  · next htext => exact absurd htext (hmark 'x' 16 (by decide) _)
  · next htext => exact absurd htext (hmark 'X' 16 (by decide) _)
  · next htext => exact absurd htext (hmark 'o' 8 (by decide) _)
  · next htext => exact absurd htext (hmark 'O' 8 (by decide) _)
  · next htext => exact absurd htext (hmark 'b' 2 (by decide) _)
  · next htext => exact absurd htext (hmark 'B' 2 (by decide) _)
  · rfl

theorem isSome_bind_toOption {α : Type} (o : Option α) (f : α → Rounded) :
    (o.bind fun a => (f a).toOption).isSome ↔ ∃ a, o = some a ∧ ∃ x, f a = .finite x := by
  have hround (r : Rounded) : r.toOption.isSome ↔ ∃ x, r = .finite x := by cases r <;> simp [Rounded.toOption]
  cases o with
  | none => simp
  | some a => simp [hround]

/-- A text is a number, blanks around it apart, exactly if it names a base and goes on with a numeral of that base below
`2 ^ 64`, or names none and is a decimal of a magnitude below `2 ^ 1024 - 2 ^ 970`. -/
theorem recognises_numbers (text : String) :
    (∀ base rest, NamesBase (Text.trim text.toList) base rest →
      ((ofText? text).isSome ↔ ∃ n, Text.IsNumeral base rest n ∧ n < 2 ^ 64)) ∧
    ((∀ base rest, ¬NamesBase (Text.trim text.toList) base rest) →
      ((ofText? text).isSome ↔
        ∃ d, Decimal.IsDecimal (Text.trim text.toList) d ∧ |d.value| < 2 ^ 1024 - 2 ^ 970)) := by
  constructor
  · intro base rest h
    have hbase : base ≤ 16 := by
      obtain ⟨mark, hm, -⟩ := h
      have hall : ∀ entry ∈ baseMarks, entry.2 ≤ 16 := by decide
      exact hall _ hm
    rw [ofText?_of_namesBase h, isSome_bind_toOption]
    refine exists_congr fun n => ?_
    rw [Text.word?_eq_some_iff_isNumeral hbase]
    exact ⟨fun hn => hn.1, fun hn => ⟨hn, (correctlyRounded_ofInt n).exists_finite (by decide) hn.2⟩⟩
  · intro h
    rw [ofText?_of_not_namesBase h, isSome_bind_toOption]
    refine exists_congr fun d => ?_
    rw [Decimal.ofChars?_eq_some_iff, d.correctlyRounded_round.finite_iff, overflowBound]

/-- A word in base sixteen, the greatest decimal with seventeen digits that is a number, and the next one. -/
theorem recognises_numbers_greatest :
    NamesBase (Text.trim " 0XfF".toList) 16 ['f', 'F'] ∧ (ofText? " 0XfF").isSome = true ∧
      (∀ text ∈ ["1.7976931348623158e308", "1.7976931348623159e308"], ∀ base rest,
        ¬NamesBase (Text.trim text.toList) base rest) ∧
      (ofText? "1.7976931348623158e308").isSome = true ∧ (ofText? "1.7976931348623159e308").isSome = false := by
  have hbase : NamesBase (Text.trim " 0XfF".toList) 16 ['f', 'F'] := ⟨'X', by decide, rfl⟩
  have hdigits : List.Forall₂ (Text.IsDigitOf 16) ['f', 'F'] [15, 15] :=
    .cons ⟨by decide, Or.inl (by decide)⟩ (.cons ⟨by decide, Or.inr (by decide)⟩ .nil)
  have hplain : ∀ text ∈ ["1.7976931348623158e308", "1.7976931348623159e308"], ∀ base rest,
      ¬NamesBase (Text.trim text.toList) base rest := by
    have hhead : ∀ text ∈ ["1.7976931348623158e308", "1.7976931348623159e308"],
        (Text.trim text.toList).head? ≠ some '0' := by decide
    rintro text ht base rest ⟨mark, -, htext⟩
    exact hhead text ht (by rw [htext]; rfl)
  have hbound (m : Nat) : |(Decimal.mk false m 292).value| < 2 ^ 1024 - 2 ^ 970 ↔
      m * tenTo 292 + twoTo 970 < twoTo 1024 := by
    rw [Decimal.abs_value, lt_sub_iff_add_lt, zpow_ofNat, ← cast_tenTo, ← cast_twoTo, ← cast_twoTo]
    exact_mod_cast Iff.rfl
  have hlow : Decimal.IsDecimal (Text.trim "1.7976931348623158e308".toList) ⟨false, 17976931348623158, 292⟩ :=
    Decimal.ofChars?_eq_some_iff.mp (by decide)
  have hhigh : Decimal.ofChars? (Text.trim "1.7976931348623159e308".toList) = some ⟨false, 17976931348623159, 292⟩ := by
    decide
  refine ⟨hbase, ?_, hplain, ?_, ?_⟩
  · exact ((recognises_numbers " 0XfF").1 16 _ hbase).mpr ⟨255, ⟨_, _, Or.inl rfl, by decide, hdigits, rfl⟩, by decide⟩
  · exact ((recognises_numbers _).2 (hplain _ (by decide))).mpr ⟨_, hlow, (hbound _).mpr (by decide +kernel)⟩
  · rw [← Bool.not_eq_true, (recognises_numbers _).2 (hplain _ (by decide))]
    rintro ⟨d, hd, hlt⟩
    rw [← Decimal.ofChars?_eq_some_iff, hhigh] at hd
    rw [← Option.some.inj hd, hbound] at hlt
    exact absurd hlt (by decide +kernel)

end Binary64

end Chronicle
