import Chronicle.Proofs.IsolatedCommands
import Chronicle.Proofs.NumberFields
import Chronicle.Proofs.PathLens

/-!
# Integers in commands

An integer in a field of a command is read as the number nearest to it. Below `2 ^ 53` this is the integer itself, and
it is stored as an integer. From there on what is stored is the floating point number to which the integer is rounded.
-/

namespace Chronicle

open Document (IsNumeric)

namespace Decimal.IsInteger

variable {text : List Char} {m n : Int}

theorem exists_isDecimal (h : IsInteger text n) : ∃ d, IsDecimal text d ∧ d.value = n := by
  obtain @⟨sign, digits, neg, hs, hne, hd⟩ := h
  have hdecimal := IsDecimal.mk hs (.whole hne hd) .none
  rw [List.append_nil] at hdecimal
  refine ⟨_, hdecimal, ?_⟩
  cases neg <;> simp [value, withSign]

/-- A text is one integer at most. -/
theorem unique (hm : IsInteger text m) (hn : IsInteger text n) : m = n := by
  obtain ⟨d, hd, hvalue⟩ := hm.exists_isDecimal
  obtain ⟨e, he, hvalue'⟩ := hn.exists_isDecimal
  rw [← ofChars?_eq_some_iff] at hd he
  rw [← Option.some.inj (hd.symm.trans he), hvalue] at hvalue'
  exact_mod_cast hvalue'

theorem isNumeric (h : IsInteger text n) : ∀ c ∈ text, IsNumeric c := by
  obtain ⟨hs, -, hd⟩ := h
  intro c hc
  rcases List.mem_append.mp hc with hc | hc
  · cases hs with
    | none => exact absurd hc List.not_mem_nil
    | plus | minus =>
      rw [List.mem_singleton.mp hc]
      decide
  · exact Or.inl (hd c hc)

end Decimal.IsInteger

namespace Binary64

variable {text : String} {n : Int}

/-- An integer is read as what it is rounded to, unless it is too large. -/
theorem exists_ofText?_of_isInteger (h : Decimal.IsInteger text.toList n) :
    ∃ r, ofText? text = r.toOption ∧ CorrectlyRounded n r := by
  obtain ⟨d, hd, hvalue⟩ := h.exists_isDecimal
  refine ⟨d.round, ?_, hvalue ▸ d.correctlyRounded_round⟩
  rw [ofText?_of_isNumeric h.isNumeric, Decimal.ofChars?_eq_some_iff.mpr hd, Option.bind_some]

theorem exists_ofText?_of_natAbs_lt (h : Decimal.IsInteger text.toList n) (hn : n.natAbs < twoTo 53) :
    ∃ x, ofText? text = some x ∧ x.value = n ∧ Num.ofBinary64 x = .int n := by
  obtain ⟨r, hr, hround⟩ := exists_ofText?_of_isInteger h
  obtain ⟨x, rfl, hx⟩ := hround.exists_int hn
  exact ⟨x, hr, hx⟩

theorem exists_ofText?_of_le_natAbs (h : Decimal.IsInteger text.toList n) (hl : twoTo 53 ≤ n.natAbs)
    (hu : n.natAbs < twoTo 1023) : ∃ x, ofText? text = some x ∧ x.IsNearest n ∧ Num.ofBinary64 x = .float x := by
  have hlow : 2 ^ 53 ≤ |(n : ℚ)| := by
    rw [abs_intCast, ← cast_twoTo]
    exact Nat.cast_le.mpr hl
  obtain ⟨r, hr, hround⟩ := exists_ofText?_of_isInteger h
  obtain ⟨x, rfl⟩ := hround.exists_finite le_rfl hu
  have hnear := hround.nearest x rfl
  exact ⟨x, hr, hnear, ofBinary64_eq_float (hnear.pow_le_abs (by decide) hlow)⟩

end Binary64

namespace State

/-- To set a variable to an integer of 64 bits is to store it as an integer if its magnitude is below `2 ^ 53`, and as
the nearest floating point number otherwise, wherever the variable can be written. -/
theorem sets_integer {t : Token} {path literal : String} {rest : List String} {n : Int} (hk : t.keyword = .set)
    (hf : Command.fieldsOf t.params = path :: literal :: rest) (hp : path ≠ "")
    (hn : Decimal.IsInteger literal.toList n) (hl : -2 ^ 63 ≤ n) (hu : n < 2 ^ 63) :
    ∃ stored : Num, Command.ofToken t = .ok (.set path (.num stored)) ∧
      (n.natAbs < 2 ^ 53 → stored = .int n) ∧
      (2 ^ 53 ≤ n.natAbs → ∃ x, stored = .float x ∧ x.IsNearest n) ∧
      ∀ (tick : Tick) (s : State) (p : Path), Path.ofString path = .ok p →
        Json.firstObstacle? p.segments (.obj s.vars) = none →
          ∃ vars, s.applyOne tick (.set path (.num stored)) = (.applied, { s with vars }) ∧
            p.get? vars = some (.num stored) := by
  obtain ⟨x, hx, hsmall, hlarge⟩ : ∃ x, Binary64.ofText? literal = some x ∧
      (n.natAbs < 2 ^ 53 → Num.ofBinary64 x = .int n) ∧
      (2 ^ 53 ≤ n.natAbs → ∃ y, Num.ofBinary64 x = .float y ∧ y.IsNearest n) := by
    rcases Nat.lt_or_ge n.natAbs (2 ^ 53) with hlt | hge
    · obtain ⟨x, hx, -, hint⟩ := Binary64.exists_ofText?_of_natAbs_lt hn hlt
      exact ⟨x, hx, fun _ => hint, fun hge => absurd hge (Nat.not_le.mpr hlt)⟩
    · have hword : n.natAbs ≤ 2 ^ 63 := by omega
      have hbound : 2 ^ 63 < twoTo 1023 := by decide +kernel
      obtain ⟨x, hx, hnear, hfloat⟩ := Binary64.exists_ofText?_of_le_natAbs hn hge (hword.trans_lt hbound)
      exact ⟨x, hx, fun hlt => absurd hge (Nat.not_le.mpr hlt), fun _ => ⟨x, hfloat, hnear⟩⟩
  have htext : Json.ofText literal = .num (.ofBinary64 x) := by simp only [Json.ofText, hx]
  refine ⟨.ofBinary64 x, htext ▸ Command.ofToken_set hk hf hp, hsmall, hlarge, fun tick s p hpath hfree => ?_⟩
  obtain ⟨vars, hset⟩ := Path.exists_set_iff.mpr hfree
  refine ⟨vars, ?_, Path.get?_of_set hset⟩
  rw [applyOne, execute_set hpath hset]

/-- A command that sets a score, with more zeros and a sign. -/
def scoreToken : Token := ⟨.set, [' '], [' '], "score :: -0007".toList⟩

theorem sets_integer_score : tokens "<SET :: score :: -0007>".toList = [scoreToken] ∧
    Decimal.IsInteger "-0007".toList (-7) ∧ Command.ofToken scoreToken = .ok (.set "score" (.num (.int (-7)))) ∧
      ∃ vars, initial.applyOne ⟨0, ⟨0, 0⟩⟩ (.set "score" (.num (.int (-7)))) = (.applied, ⟨vars, [], []⟩) ∧
        Path.get? ⟨"score", .key "score", []⟩ vars = some (.num (.int (-7))) := by
  have hfields : Command.fieldsOf scoreToken.params = ["score", "-0007"] := by decide +kernel
  have hdigits : Decimal.IsDigits ['0', '0', '0', '7'] := by decide
  have hn : Decimal.IsInteger "-0007".toList (-7) := .mk .minus (List.cons_ne_nil _ _) hdigits
  obtain ⟨stored, htoken, hsmall, -, hrun⟩ := sets_integer rfl hfields (by decide) hn (by decide) (by decide)
  obtain rfl := hsmall (by decide)
  exact ⟨by decide +kernel, hn, htoken, hrun _ _ _ rfl rfl⟩

/-- The number to which `2 ^ 53 + 1` is rounded. -/
def hoard : Binary64 := ⟨false, 2 ^ 52, 1, by decide⟩

/-- Above `2 ^ 53` the integer itself need not be stored. -/
theorem rounds_integer_hoard : Decimal.IsInteger "9007199254740993".toList 9007199254740993 ∧
    (9007199254740993 : Int) < 2 ^ 63 ∧
      (initial.apply ⟨0, ⟨0, 0⟩⟩ (Command.parseAll "<SET :: gold :: 9007199254740993>")).2 =
        ⟨[("gold", .num (.float hoard))], [], []⟩ ∧ hoard.value ≠ 9007199254740993 := by
  have htokens : tokens "<SET :: gold :: 9007199254740993>".toList =
      [⟨.set, [' '], [' '], "gold :: 9007199254740993".toList⟩] := by decide +kernel
  have hfields : Command.fieldsOf "gold :: 9007199254740993".toList = ["gold", "9007199254740993"] := by decide +kernel
  have hdigits : Decimal.IsDigits "9007199254740993".toList := by decide
  have hread : Binary64.ofText? "9007199254740993" = some hoard := by decide +kernel
  have hfloat : Num.ofBinary64 hoard = .float hoard := by decide +kernel
  have htext : Json.ofText "9007199254740993" = .num (.float hoard) := by simp only [Json.ofText, hread, hfloat]
  have hparse : Command.parseAll "<SET :: gold :: 9007199254740993>" = [.set "gold" (.num (.float hoard))] :=
    Command.parseAll_of_token htokens (htext ▸ Command.ofToken_set rfl hfields (by decide))
  refine ⟨.mk .none (by decide) hdigits, by decide, ?_, ?_⟩
  · rw [hparse]
    rfl
  · norm_num [hoard, Binary64.value, Binary64.magnitude, withSign]

end State

end Chronicle
