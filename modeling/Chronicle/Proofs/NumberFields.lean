import Chronicle.Command.Basic
import Chronicle.Proofs.Blanks
import Chronicle.Proofs.NumberGrammar

/-!
# Numbers in fields

A field of a command is read as a number by a grammar that allows more than the notations in which numbers are written.
In each of these it reads the decimal that was written, or the same value with more zeros, and so the same number.
-/

namespace Chronicle

open Document (IsNumeric Literal)

namespace Decimal

/-- An exponent of JSON is an exponent of a field. -/
theorem exponentOf?_of_exponent? {exp : List Char} {e : Option Int} (h : Document.exponent? exp = some (e, [])) :
    exponentOf? exp = some (e.getD 0) := by
  cases exp with
  | nil =>
    obtain rfl : none = e := (Prod.mk.inj (Option.some.inj h)).1
    rfl
  | cons c exp =>
    by_cases hc : c = 'e' ∨ c = 'E'
    · rw [Document.exponent?, if_pos hc] at h
      rw [exponentOf?, if_pos hc]
      simp only at h ⊢
      cases hs : Text.spanDigits (signOf exp).2 with
      | mk ds rest =>
        simp only [hs] at h
        cases ds with
        | nil => exact absurd h (by simp)
        | cons d ds =>
          rw [if_neg (by simp), Option.some.injEq, Prod.mk.injEq] at h
          obtain ⟨rfl, rfl⟩ := h
          rfl
    · rw [Document.exponent?, if_neg hc] at h
      exact absurd (Prod.mk.inj (Option.some.inj h)).2 (List.cons_ne_nil _ _)

/-- A literal of JSON is a decimal, the one that it says. -/
theorem isDecimal_chars (l : Literal) (neg : Bool) : IsDecimal (l.chars neg) (l.decimal neg) := by
  obtain ⟨-, hne, hdigits⟩ := Document.whole?_eq l.whole_eq
  have hexp := exponentOf?_eq_some_iff.mp (exponentOf?_of_exponent? l.exponent_eq)
  have hfrac := l.frac_eq
  have hmantissa : IsMantissa (l.whole ++ l.point) l.whole l.frac := by
    cases hp : l.point with
    | nil =>
      rw [hp] at hfrac
      rw [List.append_nil, ← (Prod.mk.inj (Option.some.inj hfrac)).1]
      exact .whole hne hdigits
    | cons c point =>
      obtain rfl : c = '.' := l.head_point c (by rw [hp]; rfl)
      obtain ⟨run, rest, hspan, hpoint, hrun⟩ := Document.spanDigits_eq point
      rw [hp, Document.frac?, hspan] at hfrac
      simp only [Option.ite_none_left_eq_some, Option.some.injEq, Prod.mk.injEq] at hfrac
      obtain ⟨-, rfl, rfl⟩ := hfrac
      rw [hpoint, List.append_nil]
      exact .point hne hdigits hrun
  rw [Literal.chars, ← List.append_assoc]
  cases neg with
  | false => exact .mk .none hmantissa hexp
  | true => exact .mk .minus hmantissa hexp

theorem ofChars?_chars (l : Literal) (neg : Bool) : ofChars? (l.chars neg) = some (l.decimal neg) :=
  ofChars?_eq_some_iff.mpr (isDecimal_chars l neg)

/-- What is written for a decimal is read as the decimal, perhaps with more zeros at its end. -/
theorem exists_ofChars?_render {d : Decimal} (h : d.coeff = 0 → d.exp = 0) :
    ∃ k, ofChars? d.render = some (d.withZeros k) := by
  obtain ⟨l, hrender, ⟨k, -, hk⟩, -⟩ := exists_spells h
  exact ⟨k, by rw [hrender, ofChars?_chars, hk]⟩

end Decimal

theorem isBlank_of_isNumeric {c : Char} (h : IsNumeric c) : Text.isBlank c = false := by
  rcases h with h | h
  · apply Bool.eq_false_iff.mpr
    intro hb
    have hword : Token.isWordChar c = true := by simp [Token.isWordChar, Char.isAlphanum, h]
    exact absurd hword (by simp [Token.isWordChar_eq_false_of_isBlank hb])
  · simp only [List.mem_cons, List.not_mem_nil, or_false] at h
    rcases h with rfl | rfl | rfl | rfl | rfl <;> decide

theorem trim_of_isNumeric {text : List Char} (h : ∀ c ∈ text, IsNumeric c) : Text.trim text = text :=
  Text.trim_eq_self (fun _ hc => isBlank_of_isNumeric (h _ (List.mem_of_mem_head? hc)))
    fun _ hc => isBlank_of_isNumeric (h _ (List.mem_of_mem_getLast? hc))

namespace Num

theorem isNumeric_of_mem_render {n : Num} : ∀ c ∈ n.render, IsNumeric c := by
  obtain ⟨c, run, ht, hc, hrun⟩ := Document.number?_eq n.number?_render
  rw [ht, List.append_nil]
  intro d hd
  rcases List.mem_cons.mp hd with rfl | hd
  · rcases hc with rfl | hc
    · decide
    · exact Or.inl hc
  · exact hrun d hd

theorem trim_render (n : Num) : Text.trim n.render = n.render := trim_of_isNumeric n.isNumeric_of_mem_render

end Num

namespace Binary64

/-- A text with nothing but what decimals are written with is read in base ten. -/
theorem ofText?_of_isNumeric {text : String} (h : ∀ c ∈ text.toList, IsNumeric c) :
    ofText? text = (Decimal.ofChars? text.toList).bind fun d => d.round.toOption := by
  have hletter : ∀ entry ∈ baseMarks, ¬IsNumeric entry.1 := by decide
  rw [ofText?_of_not_namesBase, trim_of_isNumeric h]
  rintro base rest ⟨mark, hm, htext⟩
  rw [trim_of_isNumeric h] at htext
  exact hletter _ hm (h mark (by simp [htext]))

theorem ofText?_render (n : Num) :
    ofText? (.ofList n.render) = (Decimal.ofChars? n.render).bind fun d => d.round.toOption := by
  rw [ofText?_of_isNumeric, String.toList_ofList]
  rw [String.toList_ofList]
  exact n.isNumeric_of_mem_render

theorem ofText?_float (x : Binary64) : ofText? (.ofList (Num.float x).render) = some x := by
  obtain ⟨k, hk⟩ := Decimal.exists_ofChars?_render x.exp_shortest
  have hround : (x.shortest.withZeros k).round = .finite x := (Decimal.round_withZeros _ k).trans x.shortest_readsAs
  have hread : Decimal.ofChars? (Num.float x).render = some (x.shortest.withZeros k) := hk
  rw [ofText?_render, hread, Option.bind_some, hround]
  rfl

theorem ofChars?_decimal (n : Int) : Decimal.ofChars? (Int.decimal n) = some ⟨decide (n < 0), n.natAbs, 0⟩ := by
  rw [Document.decimal_eq_chars, Decimal.ofChars?_chars]
  simp only [Literal.decimal, Document.integerLiteral, List.append_nil, Nat.ofDigitChars_ten_toDigits]
  rfl

/-- An integer below `2 ^ 53` as it is written is read as that integer. -/
theorem ofText?_int {n : Int} (hn : n.natAbs < twoTo 53) :
    ∃ y, ofText? (.ofList (Num.int n).render) = some y ∧ Num.ofBinary64 y = .int n := by
  have hread : Decimal.ofChars? (Num.int n).render = some ⟨decide (n < 0), n.natAbs, 0⟩ := ofChars?_decimal n
  have hround := (Decimal.mk (decide (n < 0)) n.natAbs 0).correctlyRounded_round
  rw [Decimal.value_intCast] at hround
  obtain ⟨y, hy, -, hint⟩ := hround.exists_int hn
  refine ⟨y, ?_, hint⟩
  rw [ofText?_render, hread, Option.bind_some, hy]
  rfl

end Binary64

/-- A number that is read from a field, and written in a field again, is read as the same. -/
theorem Num.exists_ofText?_render (x : Binary64) :
    ∃ y, Binary64.ofText? (.ofList (ofBinary64 x).render) = some y ∧ ofBinary64 y = ofBinary64 x := by
  cases h : x.toInt? with
  | none =>
    have hx : ofBinary64 x = .float x := by simp only [ofBinary64, h]
    exact ⟨x, by rw [hx, Binary64.ofText?_float], rfl⟩
  | some n =>
    by_cases hn : n.natAbs < twoTo 53
    · have hx : ofBinary64 x = .int n := by simp only [ofBinary64, h, if_pos hn]
      rw [hx]
      exact Binary64.ofText?_int hn
    · have hx : ofBinary64 x = .float x := by simp only [ofBinary64, h, if_neg hn]
      exact ⟨x, by rw [hx, Binary64.ofText?_float], rfl⟩

theorem Json.ofText_cases (text : String) : ofText text = .str text ∨ ∃ n, ofText text = .num n := by
  unfold ofText
  cases Binary64.ofText? text with
  | none => exact Or.inl rfl
  | some x => exact Or.inr ⟨_, rfl⟩

/-- The value that a field stands for is found again where the value is written in a field. -/
theorem Json.ofText_valueText (text : String) : ofText (Command.valueText (ofText text)) = ofText text := by
  cases h : Binary64.ofText? text with
  | none =>
    have ht : ofText text = .str text := by simp only [ofText, h]
    rw [ht, Command.valueText, ht]
  | some x =>
    obtain ⟨y, hy, hxy⟩ := Num.exists_ofText?_render x
    have ht : ofText text = .num (.ofBinary64 x) := by simp only [ofText, h]
    have hvalue : Command.valueText (.num (.ofBinary64 x)) = .ofList (Num.ofBinary64 x).render := rfl
    rw [ht, hvalue, ofText, hy]
    exact congrArg Json.num hxy

end Chronicle
