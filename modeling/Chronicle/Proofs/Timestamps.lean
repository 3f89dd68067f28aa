import Chronicle.Number.Power
import Chronicle.Proofs.Blanks
import Chronicle.Proofs.Calendar
import Chronicle.Time.Reading

/-!
# Instants as they are written

An instant in the years 0 to 9999 reads back from its Internet form. Instants are valid when they come
from a time of day, so that their nanoseconds run on only in the last second of a minute.
-/

namespace Chronicle

namespace Text

theorem length_padded {w n : Nat} (hw : 0 < w) (h : n < tenTo w) : (padded w n).length = w := by
  have hlen : (Nat.toDigits 10 n).length ≤ w := (Nat.length_toDigits_le_iff (by decide) hw).mpr h
  simp only [padded, List.length_append, List.length_replicate]
  omega

theorem isDigit_of_mem_padded {w n : Nat} {c : Char} (h : c ∈ padded w n) : c.isDigit = true := by
  rcases List.mem_append.mp h with h | h
  · rw [(List.mem_replicate.mp h).2]
    rfl
  · exact Nat.isDigit_of_mem_toDigits (by decide) (by decide) h

theorem ofDigitChars_padded (w n : Nat) : Nat.ofDigitChars 10 (padded w n) 0 = n := by
  rw [padded, Nat.ofDigitChars_append, Nat.ofDigitChars_replicate_zero, Nat.mul_zero, Nat.ofDigitChars_ten_toDigits]

theorem fixedDigits?_padded {w n : Nat} (hw : 0 < w) (h : n < tenTo w) (rest : List Char) :
    fixedDigits? w (padded w n ++ rest) = some (n, rest) := by
  have hlen := length_padded hw h
  have hall : (padded w n).all Char.isDigit = true :=
    List.all_eq_true.mpr fun c hc => isDigit_of_mem_padded hc
  rw [fixedDigits?, List.take_left' hlen, List.drop_left' hlen, if_pos ⟨hlen, hall⟩, ofDigitChars_padded]

end Text

namespace Instant

/-- The nanoseconds count less than two seconds, and more than one only in the last second of a minute. -/
def IsValid (t : Instant) : Prop :=
  t.nanos < 2 * nanosPerSecond ∧ (nanosPerSecond ≤ t.nanos → t.seconds % 60 = 59)

instance (t : Instant) : Decidable t.IsValid := inferInstanceAs (Decidable (_ ∧ _))

theorem fraction?_padded {k m : Nat} (hk : 0 < k) (hk9 : k ≤ 9) (h : m < tenTo k) {c : Char} (hc : c.isDigit = false)
    (rest : List Char) :
    fraction? ('.' :: (Text.padded k m ++ c :: rest)) = some (tenTo (9 - k) * m, c :: rest) := by
  have hlen := Text.length_padded hk h
  have hd : ∀ c ∈ Text.padded k m, c.isDigit = true := fun c hc => Text.isDigit_of_mem_padded hc
  have hspan : Text.spanDigits (Text.padded k m ++ c :: rest) = (Text.padded k m, c :: rest) := by
    rw [Text.spanDigits, Text.cut, List.takeWhile_append_of_pos hd, List.dropWhile_append_of_pos hd]
    simp [hc]
  have hne : (Text.padded k m).isEmpty = false := by
    rw [List.isEmpty_eq_false_iff]
    rintro he
    rw [he] at hlen
    exact absurd hlen (by simp; omega)
  have htake : (Text.padded k m ++ List.replicate 8 '0').take 9 = Text.padded k m ++ List.replicate (9 - k) '0' := by
    rw [List.take_append, List.take_of_length_le (by omega), List.take_replicate, hlen]
    congr 2
    omega
  rw [fraction?, hspan]
  simp only [hne, htake]
  rw [Nat.ofDigitChars_append, Text.ofDigitChars_padded, Nat.ofDigitChars_replicate_zero]
  rfl

theorem fraction?_render {nanos : Nat} (h : nanos < nanosPerSecond) {c : Char} (hc : c.isDigit = false) (hp : c ≠ '.')
    (rest : List Char) : fraction? (renderFraction nanos ++ c :: rest) = some (nanos, c :: rest) := by
  unfold nanosPerSecond at h
  unfold renderFraction
  split
  · next hz =>
    rw [List.nil_append, fraction?, hz]
    intro r he
    exact hp (List.cons.inj he).1
  split
  · next hm =>
    rw [List.cons_append, fraction?_padded (by decide) (by decide) (by rw [show tenTo 3 = 1000 from rfl]; omega) hc]
    rw [show tenTo (9 - 3) = 1000000 from rfl, Nat.mul_div_cancel' (Nat.dvd_of_mod_eq_zero hm)]
  split
  · next hm =>
    rw [List.cons_append, fraction?_padded (by decide) (by decide) (by rw [show tenTo 6 = 1000000 from rfl]; omega) hc]
    rw [show tenTo (9 - 6) = 1000 from rfl, Nat.mul_div_cancel' (Nat.dvd_of_mod_eq_zero hm)]
  · rw [List.cons_append, fraction?_padded (by decide) (by decide) h hc]
    rw [show tenTo (9 - 9) = 1 from rfl, Nat.one_mul]

theorem toInstant?_toCivil {t : Instant} (h : t.IsValid) (hl : -262143 ≤ t.toCivil.date.year)
    (hu : t.toCivil.date.year ≤ 262142) : t.toCivil.toInstant? 0 = some t := by
  obtain ⟨seconds, nanos⟩ := t
  obtain ⟨hn, hleap⟩ := h
  simp only [nanosPerSecond] at hn hleap
  have hv : (toCivil ⟨seconds, nanos⟩).IsValid := by
    refine ⟨Date.isValid_ofDays _, hl, hu, ?_, ?_, ?_⟩
    · simp only [toCivil]
      omega
    · simp only [toCivil]
      omega
    · simp only [toCivil, nanosPerSecond]
      omega
  have hsecond : (toCivil ⟨seconds, nanos⟩).second = (seconds % 86400).toNat % 60 + nanos / 1000000000 := rfl
  have hover : (if (toCivil ⟨seconds, nanos⟩).second = 60 then nanosPerSecond else 0) =
      nanos / 1000000000 * 1000000000 := by
    by_cases hz : 1000000000 ≤ nanos
    · rw [if_pos (by have := hleap hz; omega), nanosPerSecond]
      omega
    · rw [if_neg (by omega)]
      omega
  rw [CivilTime.toInstant?, if_pos hv, hover]
  simp only [toCivil, Date.toDays_ofDays, nanosPerSecond, Option.some.injEq, mk.injEq]
  omega

theorem renderYear_eq {year : Int} (hl : 0 ≤ year) (hu : year ≤ 9999) : renderYear year = Text.padded 4 year.toNat :=
  if_pos ⟨hl, hu⟩

theorem ofInternet?_render {t : Instant} (h : t.IsValid) (hl : 0 ≤ t.toCivil.date.year)
    (hu : t.toCivil.date.year ≤ 9999) : ofInternet? t.render = some t := by
  have hback := toInstant?_toCivil h (by omega) (by omega)
  obtain ⟨_, hmonth, _, hday⟩ := Date.isValid_ofDays (t.seconds / 86400)
  have hd31 : Date.daysInMonth (Date.ofDays (t.seconds / 86400)).year (Date.ofDays (t.seconds / 86400)).month ≤ 31 := by
    unfold Date.daysInMonth
    split
    · split <;> omega
    · split <;> omega
  have hy : t.toCivil.date.year.toNat < tenTo 4 := by rw [show tenTo 4 = 10000 from rfl]; omega
  have two : ∀ n, n < 100 → n < tenTo 2 := fun n hn => hn
  have hm : t.toCivil.date.month < tenTo 2 := two _ (by simp only [toCivil]; omega)
  have hdd : t.toCivil.date.day < tenTo 2 := two _ (by simp only [toCivil]; omega)
  have hh : t.toCivil.hour < tenTo 2 := two _ (by simp only [toCivil]; omega)
  have hmin : t.toCivil.minute < tenTo 2 := two _ (by simp only [toCivil]; omega)
  have hs : t.toCivil.second < tenTo 2 := two _ (by have := h.1; simp only [toCivil, nanosPerSecond] at *; omega)
  have hn : t.toCivil.nanos < nanosPerSecond := Nat.mod_lt _ (by decide)
  have hyear : (t.toCivil.date.year.toNat : Int) = t.toCivil.date.year := Int.toNat_of_nonneg hl
  have hfrac := fraction?_render hn (c := 'Z') (by decide) (by decide) []
  simp only [ofInternet?, render, renderYear_eq hl hu, List.append_assoc, List.cons_append,
    Text.fixedDigits?_padded (by decide) hy, Text.fixedDigits?_padded (by decide) hm,
    Text.fixedDigits?_padded (by decide) hdd, Text.fixedDigits?_padded (by decide) hh,
    Text.fixedDigits?_padded (by decide) hmin, Text.fixedDigits?_padded (by decide) hs,
    Text.expect?, Option.bind_eq_bind, Option.bind_some, hfrac, offset?, hyear, ↓reduceIte]
  exact hback

theorem toNat_of_isDigit {c : Char} (h : c.isDigit = true) : 48 ≤ c.toNat ∧ c.toNat ≤ 57 := by
  simp only [Char.isDigit, Bool.and_eq_true, decide_eq_true_eq, ge_iff_le, UInt32.le_iff_toNat_le] at h
  exact h

theorem isBlank_of_isDigit {c : Char} (h : c.isDigit = true) : Text.isBlank c = false := by
  have hc := toNat_of_isDigit h
  simp only [Text.isBlank, Bool.or_eq_false_iff, Bool.and_eq_false_iff, decide_eq_false_iff_not, beq_eq_false_iff_ne]
  omega

theorem trim_render {t : Instant} (hl : 0 ≤ t.toCivil.date.year) (hu : t.toCivil.date.year ≤ 9999) :
    Text.trim t.render = t.render := by
  apply Text.trim_eq_self
  · have hy : t.toCivil.date.year.toNat < tenTo 4 := by rw [show tenTo 4 = 10000 from rfl]; omega
    have hlen := Text.length_padded (by decide) hy
    simp only [render, renderYear_eq hl hu, List.append_assoc]
    intro c hc
    cases hp : Text.padded 4 t.toCivil.date.year.toNat with
    | nil => simp [hp] at hlen
    | cons d ds =>
      rw [hp] at hc
      apply isBlank_of_isDigit
      apply Text.isDigit_of_mem_padded (w := 4) (n := t.toCivil.date.year.toNat)
      rw [hp, ← Option.some.inj hc]
      exact List.mem_cons_self
  · intro c hc
    rw [render, List.getLast?_concat] at hc
    rw [← Option.some.inj hc]
    decide

/-- A valid instant in the years 0 to 9999 is the one that its Internet form stands for in a command. -/
theorem ofText?_render {t : Instant} (h : t.IsValid) (hl : 0 ≤ t.toCivil.date.year)
    (hu : t.toCivil.date.year ≤ 9999) : ofText? (.ofList t.render) = some t := by
  rw [ofText?, String.toList_ofList, trim_render hl hu, ofInternet?_render h hl hu]
  rfl

theorem mem_renderFraction {nanos : Nat} {c : Char} (h : c ∈ renderFraction nanos) : c.isDigit = true ∨ c = '.' := by
  unfold renderFraction at h
  split at h
  · exact absurd h List.not_mem_nil
  split at h
  · exact (List.mem_cons.mp h).symm.imp Text.isDigit_of_mem_padded id
  split at h
  · exact (List.mem_cons.mp h).symm.imp Text.isDigit_of_mem_padded id
  · exact (List.mem_cons.mp h).symm.imp Text.isDigit_of_mem_padded id

theorem mem_renderYear {year : Int} {c : Char} (h : c ∈ renderYear year) : c.isDigit = true ∨ c ∈ ['-', '+'] := by
  unfold renderYear at h
  split at h
  · exact Or.inl (Text.isDigit_of_mem_padded h)
  · rcases List.mem_cons.mp h with rfl | h
    · split <;> simp
    · exact Or.inl (Text.isDigit_of_mem_padded h)

/-- The characters of a written instant, whatever its year is. -/
theorem mem_render {t : Instant} {c : Char} (h : c ∈ t.render) :
    c.isDigit = true ∨ c ∈ ['-', '+', 'T', ':', '.', 'Z'] := by
  simp only [render, List.mem_append, List.mem_cons, List.not_mem_nil, or_false] at h ⊢
  have hp : ∀ {w n : Nat}, c ∈ Text.padded w n → c.isDigit = true := Text.isDigit_of_mem_padded
  rcases h with ((((((((h | h | h) | h | h) | h | h) | h | h) | h | h)) | h) | h)
  all_goals first
    | exact Or.inl (hp h)
    | exact (mem_renderYear h).imp id (by simpa using fun h => h.imp id Or.inl)
    | exact (mem_renderFraction h).imp id (by simp [·])
    | simp [h]

theorem ofDigitChars_lt {ds : List Char} (h : ∀ c ∈ ds, c.isDigit = true) (init : Nat) :
    Nat.ofDigitChars 10 ds init < (init + 1) * tenTo ds.length := by
  induction ds generalizing init with
  | nil => simp [tenTo]
  | cons c ds ih =>
    have hc := toNat_of_isDigit (h c List.mem_cons_self)
    have hstep : 10 * init + (c.toNat - '0'.toNat) + 1 ≤ (init + 1) * 10 := by
      rw [show '0'.toNat = 48 from rfl]
      omega
    have hpow : tenTo (c :: ds).length = 10 * tenTo ds.length := by
      rw [List.length_cons, tenTo, tenTo, Nat.pow_eq, Nat.pow_eq, Nat.pow_succ, Nat.mul_comm]
    calc Nat.ofDigitChars 10 (c :: ds) init
        = Nat.ofDigitChars 10 ds (10 * init + (c.toNat - '0'.toNat)) := Nat.ofDigitChars_cons
      _ < (10 * init + (c.toNat - '0'.toNat) + 1) * tenTo ds.length :=
        ih (fun d hd => h d (List.mem_cons_of_mem c hd)) _
      _ ≤ (init + 1) * 10 * tenTo ds.length := Nat.mul_le_mul_right _ hstep
      _ = (init + 1) * tenTo (c :: ds).length := by rw [hpow, Nat.mul_assoc]

theorem isValid_of_toInstant? {c : CivilTime} {offset : Int} {t : Instant} (h : c.toInstant? offset = some t)
    (hn : c.nanos < nanosPerSecond) (ho : offset % 60 = 0) : t.IsValid := by
  rw [CivilTime.toInstant?] at h
  split at h
  · next hv =>
    rw [← Option.some.inj h]
    unfold nanosPerSecond at hn
    simp only [IsValid, nanosPerSecond]
    split
    · next hs =>
      rw [hs]
      omega
    · omega
  · exact absurd h (by simp)

theorem fraction?_lt {text rest : List Char} {nanos : Nat} (h : fraction? text = some (nanos, rest)) :
    nanos < nanosPerSecond := by
  unfold fraction? at h
  split at h
  · next after =>
    obtain ⟨ds, tail, hs, -, hd⟩ : ∃ ds tail, Text.spanDigits after = (ds, tail) ∧ after = ds ++ tail ∧
        ∀ c ∈ ds, c.isDigit = true :=
      ⟨_, _, rfl, (Text.cut_append _ _).symm, fun c hc => List.all_eq_true.mp List.all_takeWhile c hc⟩
    rw [hs] at h
    simp only at h
    split at h
    · exact absurd h (by simp)
    · have hall : ∀ c ∈ (ds ++ List.replicate 8 '0').take 9, c.isDigit = true := by
        intro c hc
        rcases List.mem_append.mp (List.mem_of_mem_take hc) with hc | hc
        · exact hd c hc
        · rw [(List.mem_replicate.mp hc).2]
          rfl
      have hlt := ofDigitChars_lt hall 0
      have hlen : ((ds ++ List.replicate 8 '0').take 9).length ≤ 9 := List.length_take_le _ _
      have hpow : tenTo ((ds ++ List.replicate 8 '0').take 9).length ≤ nanosPerSecond :=
        Nat.pow_le_pow_right (by decide) hlen
      rw [← (Prod.mk.inj (Option.some.inj h)).1]
      omega
  · rw [← (Prod.mk.inj (Option.some.inj h)).1]
    decide

theorem mod_of_minutes (east hours minutes : Int) : east * (hours * 3600 + minutes * 60) % 60 = 0 := by
  have hf : hours * 3600 + minutes * 60 = 60 * (hours * 60 + minutes) := by omega
  rw [hf, Int.mul_left_comm, Int.mul_emod_right]

theorem offset?_mod {text : List Char} {offset : Int} (h : offset? text = some offset) : offset % 60 = 0 := by
  unfold offset? at h
  split at h
  · rw [← Option.some.inj h]
    rfl
  · rw [← Option.some.inj h]
    rfl
  · simp only [Option.bind_eq_bind] at h
    split at h
    · simp only [Option.bind_eq_some_iff, Prod.exists] at h
      obtain ⟨east, -, hours, _, -, _, -, minutes, _, -, h⟩ := h
      split at h
      · exact Option.some.inj h ▸ mod_of_minutes _ _ _
      · exact absurd h (by simp)
    · split at h
      · simp only [Option.bind_eq_some_iff, Prod.exists] at h
        obtain ⟨east, -, hours, _, -, _, -, minutes, _, -, h⟩ := h
        split at h
        · exact Option.some.inj h ▸ mod_of_minutes _ _ _
        · exact absurd h (by simp)
      · exact absurd h (by simp)
  · exact absurd h (by simp)

theorem isValid_of_ofInternet? {text : List Char} {t : Instant} (h : ofInternet? text = some t) : t.IsValid := by
  simp only [ofInternet?, Option.bind_eq_bind, Option.bind_eq_some_iff, Prod.exists] at h
  obtain ⟨year, _, -, _, -, month, _, -, _, -, day, rest, -, h⟩ := h
  split at h
  case h_4 => exact absurd h (by simp)
  -- the three characters that may stand between date and time
  all_goals
    simp only [Option.bind_eq_some_iff, Prod.exists] at h
    obtain ⟨_, -, hour, _, -, _, -, minute, _, -, _, -, second, _, -, nanos, _, hn, offset, ho, h⟩ := h
    exact isValid_of_toInstant? h (fraction?_lt hn) (offset?_mod ho)

theorem nanos_of_read? {item : DateItem} {c c' : CivilTime} {text rest : List Char}
    (h : item.read? c text = some (c', rest)) : c'.nanos = c.nanos := by
  cases item <;> simp only [DateItem.read?, Option.map_eq_some_iff, Prod.mk.injEq, Option.some.injEq] at h
  case blanks => rw [h.1]
  all_goals
    obtain ⟨_, -, rfl, -⟩ := h
    rfl

theorem nanos_of_readAll? {items : List DateItem} {c c' : CivilTime} {text : List Char}
    (h : DateItem.readAll? c text items = some c') : c'.nanos = c.nanos := by
  induction items generalizing c text with
  | nil =>
    rw [DateItem.readAll?] at h
    split at h
    · rw [Option.some.inj h]
    · exact absurd h (by simp)
  | cons item items ih =>
    simp only [DateItem.readAll?, Option.bind_eq_bind, Option.bind_eq_some_iff, Prod.exists] at h
    obtain ⟨c₁, rest, hread, h⟩ := h
    rw [ih h, nanos_of_read? hread]

/-- An instant that a text in a command stands for is valid. -/
theorem isValid_of_ofText? {text : String} {t : Instant} (h : ofText? text = some t) : t.IsValid := by
  simp only [ofText?, Option.or_eq_some_iff, List.findSome?_eq_some_iff] at h
  rcases h with h | ⟨-, _, _, _, -, h, -⟩
  · exact isValid_of_ofInternet? h
  · simp only [Option.bind_eq_some_iff] at h
    obtain ⟨c, hread, h⟩ := h
    exact isValid_of_toInstant? h (by rw [nanos_of_readAll? hread]; decide) rfl

end Instant

end Chronicle
