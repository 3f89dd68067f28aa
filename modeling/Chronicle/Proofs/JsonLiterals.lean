import Chronicle.Json.Parser
import Chronicle.Json.Printer

/-!
# Strings and numbers as they are written

A quoted string reads back as the text that it quotes. A number is read wherever its text ends, as
long as what follows could not be a part of it, and an integer of 64 bits reads back.
-/

namespace Chronicle.Document

/-- The element of a string literal as which the escape of a character is read. -/
def itemOf (c : Char) : StringItem :=
  if c.toNat < 0x20 ∧ c ∉ ['\n', '\r', '\t', '\x08', '\x0c'] then .unit c.toNat else .char c

theorem digit?_digitChar {n : Nat} (h : n < 16) : Text.digit? 16 (Nat.digitChar n) = some n := by
  have hall : ∀ n < 16, Text.digit? 16 (Nat.digitChar n) = some n := by decide
  exact hall n h

theorem stringItems?_char {c : Char} (items : List StringItem) (rest : List Char) (hq : c ≠ '"') (hb : c ≠ '\\')
    (hc : ¬c.toNat < 0x20) : stringItems? items (c :: rest) = stringItems? (.char c :: items) rest := by
  rw [stringItems?.eq_def]
  split
  · simp_all
  · simp_all
  · simp_all
  · simp_all
  · next h =>
    obtain ⟨rfl, rfl⟩ := List.cons.inj h
    rw [if_neg hc]

theorem stringItems?_escape (c : Char) (items : List StringItem) (rest : List Char) :
    stringItems? items (Json.escape c ++ rest) = stringItems? (itemOf c :: items) rest := by
  unfold Json.escape itemOf
  by_cases hq : c = '"'
  · subst hq
    rfl
  by_cases hb : c = '\\'
  · subst hb
    rfl
  by_cases hs : c ∈ ['\n', '\r', '\t', '\x08', '\x0c']
  · simp only [List.mem_cons, List.not_mem_nil, or_false] at hs
    rcases hs with rfl | rfl | rfl | rfl | rfl <;> rfl
  · have hn := hs
    simp only [List.mem_cons, List.not_mem_nil, or_false, not_or] at hn
    obtain ⟨h1, h2, h3, h4, h5⟩ := hn
    rw [if_neg hq, if_neg hb, if_neg h1, if_neg h2, if_neg h3, if_neg h4, if_neg h5]
    by_cases hc : c.toNat < 0x20
    · rw [if_pos hc, if_pos ⟨hc, hs⟩]
      have hhi := digit?_digitChar (n := c.toNat / 16) (by omega)
      have hlo := digit?_digitChar (n := c.toNat % 16) (by omega)
      have hz : Text.digit? 16 '0' = some 0 := by decide
      have hv : ((0 * 16 + 0) * 16 + c.toNat / 16) * 16 + c.toNat % 16 = c.toNat := by omega
      simp only [List.cons_append, List.nil_append, stringItems?, hz, hhi, hlo, hv]
    · rw [if_neg hc, if_neg (fun h => hc h.1)]
      exact stringItems?_char items rest hq hb hc

theorem stringItems?_escaped (s : List Char) (items : List StringItem) (rest : List Char) :
    stringItems? items (s.flatMap Json.escape ++ '"' :: rest) = some (items.reverse ++ s.map itemOf, rest) := by
  induction s generalizing items with
  | nil => simp [stringItems?]
  | cons c s ih =>
    rw [List.flatMap_cons, List.append_assoc, stringItems?_escape, ih]
    simp

theorem assemble?_unit {n : Nat} (hn : n < 0x20) (text : List Char) (rest : List StringItem) :
    assemble? text (.unit n :: rest) = assemble? (Char.ofNat n :: text) rest := by
  have hhi : ¬(0xD800 ≤ n ∧ n < 0xDC00) := by omega
  have hlo : ¬(0xDC00 ≤ n ∧ n < 0xE000) := by omega
  have hall : ¬(0xD800 ≤ n ∧ n < 0xE000) := by omega
  cases rest with
  | nil =>
    rw [assemble?.eq_def]
    simp only [if_neg hall]
  | cons item rest =>
    cases item with
    | char c =>
      rw [assemble?.eq_def]
      simp only [if_neg hall]
    | unit lo =>
      rw [assemble?.eq_def]
      simp only [if_neg hhi, if_neg hlo]

theorem assemble?_map_itemOf (s text : List Char) : assemble? text (s.map itemOf) = some (text.reverse ++ s) := by
  induction s generalizing text with
  | nil => simp [assemble?]
  | cons c s ih =>
    rw [List.map_cons, itemOf]
    by_cases hc : c.toNat < 0x20 ∧ c ∉ ['\n', '\r', '\t', '\x08', '\x0c']
    · rw [if_pos hc, assemble?_unit hc.1, Char.ofNat_toNat, ih]
      simp
    · rw [if_neg hc, assemble?, ih]
      simp

/-- A quoted string reads back. -/
theorem string?_escaped (s : String) (rest : List Char) :
    string? (s.toList.flatMap Json.escape ++ '"' :: rest) = some (some s, rest) := by
  simp [string?, stringItems?_escaped, assemble?_map_itemOf]

/-- What may follow a number: nothing that could carry it on. -/
def EndsNumber (rest : List Char) : Prop :=
  ∀ c ∈ rest.head?, c.isDigit = false ∧ c ≠ '.' ∧ c ≠ 'e' ∧ c ≠ 'E'

theorem endsNumber_nil : EndsNumber [] := by simp [EndsNumber]

theorem spanDigits_append {rest : List Char} (h : ∀ c ∈ rest.head?, c.isDigit = false) (text : List Char) :
    Text.spanDigits (text ++ rest) = ((Text.spanDigits text).1, (Text.spanDigits text).2 ++ rest) := by
  unfold Text.spanDigits Text.cut
  induction text with
  | nil =>
    cases rest with
    | nil => rfl
    | cons c rest => simp [h c (by simp)]
  | cons c text ih =>
    cases hc : c.isDigit with
    | false => simp [hc]
    | true => simpa [hc] using ih

theorem minus_append {text : List Char} (h : text ≠ []) (rest : List Char) :
    minus (text ++ rest) = ((minus text).1, (minus text).2 ++ rest) := by
  cases text with
  | nil => exact absurd rfl h
  | cons c text =>
    by_cases hc : c = '-'
    · subst hc
      rfl
    · simp [minus, hc]

theorem whole?_of_ne {text : List Char} (h : ∀ c ∈ text.head?, c ≠ '0') : whole? text =
    if (Text.spanDigits text).1.isEmpty then none else some (Text.spanDigits text) := by
  rw [whole?]
  rintro rest rfl
  exact h '0' (by simp) rfl

theorem whole?_append {text rest ds after : List Char} (hd : ∀ c ∈ rest.head?, c.isDigit = false)
    (h : whole? text = some (ds, after)) : whole? (text ++ rest) = some (ds, after ++ rest) := by
  cases text with
  | nil => simp [whole?, Text.spanDigits, Text.cut] at h
  | cons c text =>
    by_cases hc : c = '0'
    · subst hc
      simp only [whole?, Option.some.injEq, Prod.mk.injEq] at h
      obtain ⟨rfl, rfl⟩ := h
      rfl
    · have hne : ∀ d ∈ (c :: text).head?, d ≠ '0' := by simpa using hc
      have hne' : ∀ d ∈ (c :: text ++ rest).head?, d ≠ '0' := by simpa using hc
      rw [whole?_of_ne hne] at h
      rw [whole?_of_ne hne', spanDigits_append hd]
      split at h
      · exact absurd h (by simp)
      · next hne =>
        rw [if_neg hne, Option.some.inj h]

theorem frac?_of_ne {text : List Char} (h : ∀ c ∈ text.head?, c ≠ '.') : frac? text = some ([], text) := by
  rw [frac?]
  rintro rest rfl
  exact h '.' (by simp) rfl

theorem frac?_append {text rest ds after : List Char} (hr : ∀ c ∈ rest.head?, c.isDigit = false ∧ c ≠ '.')
    (h : frac? text = some (ds, after)) : frac? (text ++ rest) = some (ds, after ++ rest) := by
  have hd : ∀ c ∈ rest.head?, c.isDigit = false := fun c hc => (hr c hc).1
  by_cases hc : text.head? = some '.'
  · obtain ⟨text, rfl⟩ := List.head?_eq_some_iff.mp hc
    rw [frac?] at h
    rw [List.cons_append, frac?, spanDigits_append hd]
    simp only at h ⊢
    split at h
    · exact absurd h (by simp)
    · next hne =>
      simp only [Option.some.injEq, Prod.mk.injEq] at h
      rw [if_neg hne, h.1, h.2]
  · have hne : ∀ c ∈ text.head?, c ≠ '.' := by
      rintro c hm rfl
      exact hc hm
    have hne' : ∀ c ∈ (text ++ rest).head?, c ≠ '.' := by
      cases text with
      | nil => exact fun c hm => (hr c hm).2
      | cons d text => exact hne
    rw [frac?_of_ne hne, Option.some.injEq, Prod.mk.injEq] at h
    rw [frac?_of_ne hne', h.1, h.2]

theorem signOf_append {text : List Char} (h : text ≠ []) (rest : List Char) :
    Decimal.signOf (text ++ rest) = ((Decimal.signOf text).1, (Decimal.signOf text).2 ++ rest) := by
  cases text with
  | nil => exact absurd rfl h
  | cons c text =>
    by_cases hm : c = '-'
    · subst hm
      rfl
    by_cases hp : c = '+'
    · subst hp
      rfl
    · simp [Decimal.signOf, hm, hp]

theorem exponent?_append {text rest after : List Char} {e : Option Int} (hr : EndsNumber rest)
    (h : exponent? text = some (e, after)) : exponent? (text ++ rest) = some (e, after ++ rest) := by
  have hd : ∀ c ∈ rest.head?, c.isDigit = false := fun c hc => (hr c hc).1
  cases text with
  | nil =>
    simp only [exponent?, Option.some.injEq, Prod.mk.injEq] at h
    obtain ⟨rfl, rfl⟩ := h
    cases rest with
    | nil => rfl
    | cons c rest => simp [exponent?, (hr c (by simp)).2.2]
  | cons c text =>
    by_cases hc : c = 'e' ∨ c = 'E'
    · have hne : text ≠ [] := by
        rintro rfl
        simp [exponent?, hc, Decimal.signOf, Text.spanDigits, Text.cut] at h
      rw [exponent?, if_pos hc] at h
      rw [List.cons_append, exponent?, if_pos hc, signOf_append hne]
      simp only [spanDigits_append hd] at h ⊢
      split at h
      · exact absurd h (by simp)
      · next hds =>
        simp only [Option.some.injEq, Prod.mk.injEq] at h
        rw [if_neg hds, h.1, h.2]
    · rw [exponent?, if_neg hc, Option.some.injEq, Prod.mk.injEq] at h
      rw [List.cons_append, exponent?, if_neg hc, ← h.1, ← h.2, List.cons_append]

/-- A number is read alike in front of a text that does not carry it on. -/
theorem number?_append {text rest after : List Char} {d : Document} (hr : EndsNumber rest)
    (h : number? text = some (d, after)) : number? (text ++ rest) = some (d, after ++ rest) := by
  have hne : text ≠ [] := by
    rintro rfl
    simp [number?, minus, whole?, Text.spanDigits, Text.cut] at h
  simp only [number?, Option.bind_eq_bind, Option.bind_eq_some_iff, Option.pure_def, Option.some.injEq,
    Prod.mk.injEq, Prod.exists] at h ⊢
  obtain ⟨whole, rest₁, hw, frac, rest₂, hf, e, rest₃, he, hd, rfl⟩ := h
  rw [minus_append hne]
  exact ⟨whole, _, whole?_append (fun c hc => (hr c hc).1) hw, frac, _,
    frac?_append (fun c hc => ⟨(hr c hc).1, (hr c hc).2.1⟩) hf, e, _, exponent?_append hr he, hd, rfl⟩

def IsNumeric (c : Char) : Prop := c.isDigit = true ∨ c ∈ ['-', '+', '.', 'e', 'E']

instance (c : Char) : Decidable (IsNumeric c) := inferInstanceAs (Decidable (_ ∨ _))

theorem spanDigits_eq (text : List Char) : ∃ ds after, Text.spanDigits text = (ds, after) ∧ text = ds ++ after ∧
    ∀ c ∈ ds, c.isDigit = true :=
  ⟨_, _, rfl, (Text.cut_append _ _).symm, fun c hc => List.all_eq_true.mp List.all_takeWhile c hc⟩

theorem whole?_eq {text ds after : List Char} (h : whole? text = some (ds, after)) :
    text = ds ++ after ∧ ds ≠ [] ∧ ∀ c ∈ ds, c.isDigit = true := by
  by_cases hc : text.head? = some '0'
  · obtain ⟨text, rfl⟩ := List.head?_eq_some_iff.mp hc
    simp only [whole?, Option.some.injEq, Prod.mk.injEq] at h
    obtain ⟨rfl, rfl⟩ := h
    exact ⟨rfl, by simp, List.forall_mem_singleton.mpr (by decide)⟩
  · obtain ⟨run, rest, hs, ht, hd⟩ := spanDigits_eq text
    rw [whole?_of_ne (fun c hm he => hc (he ▸ hm)), hs] at h
    simp only [List.isEmpty_iff] at h
    split at h
    · exact absurd h (by simp)
    · next hne =>
      simp only [Option.some.injEq, Prod.mk.injEq] at h
      obtain ⟨rfl, rfl⟩ := h
      exact ⟨ht, hne, hd⟩

theorem frac?_eq {text ds after : List Char} (h : frac? text = some (ds, after)) :
    ∃ run, text = run ++ after ∧ ∀ c ∈ run, IsNumeric c := by
  by_cases hc : text.head? = some '.'
  · obtain ⟨text, rfl⟩ := List.head?_eq_some_iff.mp hc
    obtain ⟨run, rest, hs, ht, hd⟩ := spanDigits_eq text
    rw [frac?, hs] at h
    simp only at h
    split at h
    · exact absurd h (by simp)
    · simp only [Option.some.injEq, Prod.mk.injEq] at h
      obtain ⟨rfl, rfl⟩ := h
      refine ⟨'.' :: run, by rw [ht, List.cons_append], ?_⟩
      rintro c (_ | ⟨_, hc⟩)
      · exact Or.inr (by decide)
      · exact Or.inl (hd c hc)
  · rw [frac?_of_ne (fun c hm he => hc (he ▸ hm)), Option.some.injEq, Prod.mk.injEq] at h
    exact ⟨[], h.2, by simp⟩

theorem signOf_eq (text : List Char) : ∃ sign, text = sign ++ (Decimal.signOf text).2 ∧ ∀ c ∈ sign, IsNumeric c := by
  unfold Decimal.signOf
  split
  · refine ⟨['-'], rfl, ?_⟩
    rintro c (_ | ⟨_, hc⟩)
    · exact Or.inr (by decide)
    · exact absurd hc List.not_mem_nil
  · refine ⟨['+'], rfl, ?_⟩
    rintro c (_ | ⟨_, hc⟩)
    · exact Or.inr (by decide)
    · exact absurd hc List.not_mem_nil
  · exact ⟨[], rfl, by simp⟩

theorem exponent?_eq {text after : List Char} {e : Option Int} (h : exponent? text = some (e, after)) :
    ∃ run, text = run ++ after ∧ ∀ c ∈ run, IsNumeric c := by
  cases text with
  | nil =>
    simp only [exponent?, Option.some.injEq, Prod.mk.injEq] at h
    exact ⟨[], h.2, by simp⟩
  | cons c text =>
    by_cases hc : c = 'e' ∨ c = 'E'
    · obtain ⟨sign, ht, hn⟩ := signOf_eq text
      obtain ⟨run, rest, hs, hr, hd⟩ := spanDigits_eq (Decimal.signOf text).2
      rw [exponent?, if_pos hc] at h
      simp only [hs] at h
      split at h
      · exact absurd h (by simp)
      · simp only [Option.some.injEq, Prod.mk.injEq] at h
        refine ⟨c :: (sign ++ run), by rw [ht, hr, ← h.2]; simp, ?_⟩
        intro d hm
        rcases List.mem_cons.mp hm with rfl | hm
        · exact Or.inr (by rcases hc with rfl | rfl <;> decide)
        · exact (List.mem_append.mp hm).elim (hn d) (fun hm => Or.inl (hd d hm))
    · rw [exponent?, if_neg hc, Option.some.injEq, Prod.mk.injEq] at h
      exact ⟨[], h.2, by simp⟩

theorem number?_eq {text after : List Char} {d : Document} (h : number? text = some (d, after)) :
    ∃ c run, text = c :: run ++ after ∧ (c = '-' ∨ c.isDigit = true) ∧ ∀ c ∈ run, IsNumeric c := by
  simp only [number?, Option.bind_eq_bind, Option.bind_eq_some_iff, Option.pure_def, Option.some.injEq,
    Prod.mk.injEq, Prod.exists] at h
  obtain ⟨whole, rest₁, hw, frac, rest₂, hf, e, rest₃, he, -, rfl⟩ := h
  obtain ⟨ht, hne, hd⟩ := whole?_eq hw
  obtain ⟨run₂, rfl, hn₂⟩ := frac?_eq hf
  obtain ⟨run₃, rfl, hn₃⟩ := exponent?_eq he
  obtain ⟨c, ds, rfl⟩ := List.exists_cons_of_ne_nil hne
  have hrun : ∀ a ∈ ds ++ run₂ ++ run₃, IsNumeric a := by
    intro a ha
    rcases List.mem_append.mp ha with ha | ha
    · exact (List.mem_append.mp ha).elim (fun ha => Or.inl (hd a (List.mem_cons_of_mem _ ha))) (hn₂ a)
    · exact hn₃ a ha
  by_cases hc : text.head? = some '-'
  · obtain ⟨text, rfl⟩ := List.head?_eq_some_iff.mp hc
    refine ⟨'-', c :: (ds ++ run₂ ++ run₃), by simpa [minus] using ht, Or.inl rfl, ?_⟩
    intro a ha
    rcases List.mem_cons.mp ha with rfl | ha
    · exact Or.inl (hd a List.mem_cons_self)
    · exact hrun a ha
  · have hm : minus text = (false, text) := by
      rw [minus]
      rintro rest rfl
      exact hc rfl
    rw [hm] at ht
    exact ⟨c, ds ++ run₂ ++ run₃, by simpa using ht, Or.inr (hd c List.mem_cons_self), hrun⟩

theorem isDigit_of_mem_toDigits {c : Char} {n : Nat} (h : c ∈ Nat.toDigits 10 n) : c.isDigit = true :=
  Nat.isDigit_of_mem_toDigits (by decide) (by decide) h

theorem head?_toDigits_ne_zero {n : Nat} (h : 0 < n) : ∀ c ∈ (Nat.toDigits 10 n).head?, c ≠ '0' := by
  induction n using Nat.strongRecOn with
  | ind n ih =>
    by_cases hn : n < 10
    · rw [Nat.toDigits_of_lt_base hn]
      have hall : ∀ n < 10, 0 < n → Nat.digitChar n ≠ '0' := by decide
      intro c hc
      rw [← Option.some.inj hc]
      exact hall n hn h
    · have hrest := ih (n / 10) (by omega) (by omega)
      rw [Nat.toDigits_of_base_le (by decide) (by omega)]
      cases hd : Nat.toDigits 10 (n / 10) with
      | nil => exact absurd hd Nat.toDigits_ne_nil
      | cons c ds =>
        rw [hd] at hrest
        exact hrest

theorem spanDigits_eq_self {ds : List Char} (h : ∀ c ∈ ds, c.isDigit = true) : Text.spanDigits ds = (ds, []) := by
  have ht : (ds ++ []).takeWhile Char.isDigit = ds ++ [] := List.takeWhile_append_of_pos h
  have hd : (ds ++ []).dropWhile Char.isDigit = [] := List.dropWhile_append_of_pos h
  rw [List.append_nil] at ht hd
  rw [Text.spanDigits, Text.cut, ht, hd]

theorem whole?_of_digits {ds : List Char} (hd : ∀ c ∈ ds, c.isDigit = true) (hne : ds ≠ [])
    (hz : ∀ c ∈ ds.head?, c ≠ '0') : whole? ds = some (ds, []) := by
  rw [whole?_of_ne hz, spanDigits_eq_self hd]
  exact if_neg (by simpa using hne)

theorem whole?_toDigits (n : Nat) : whole? (Nat.toDigits 10 n) = some (Nat.toDigits 10 n, []) := by
  by_cases hn : n = 0
  · subst hn
    decide
  · exact whole?_of_digits (fun c hc => isDigit_of_mem_toDigits hc) Nat.toDigits_ne_nil
      (head?_toDigits_ne_zero (Nat.pos_of_ne_zero hn))

theorem number?_decimal {n : Int} (hl : -twoTo 63 ≤ n) (hu : n < twoTo 64) :
    number? (Int.decimal n) = some (.num (.int n), []) := by
  have hv : Nat.ofDigitChars 10 (Nat.toDigits 10 n.natAbs ++ []) 0 = n.natAbs := by
    rw [List.append_nil, Nat.ofDigitChars_ten_toDigits]
  by_cases hn : n < 0
  · have hc : 0 < n.natAbs ∧ n.natAbs ≤ twoTo 63 := by omega
    have he : -(n.natAbs : Int) = n := by omega
    rw [number?, Int.decimal, if_pos hn]
    simp only [minus, Option.bind_eq_bind, whole?_toDigits, Option.bind_some, frac?, exponent?, numberOfParts, hv]
    simp only [if_true, List.isEmpty_nil, Option.isNone_none, true_and, if_pos hc, he]
    rfl
  · have hc : n.natAbs < twoTo 64 := by omega
    have he : (n.natAbs : Int) = n := by omega
    have hm : minus (Nat.toDigits 10 n.natAbs) = (false, Nat.toDigits 10 n.natAbs) := by
      rw [minus]
      intro rest hr
      have hmem : '-' ∈ Nat.toDigits 10 n.natAbs := by rw [hr]; exact List.mem_cons_self
      exact absurd (isDigit_of_mem_toDigits hmem) (by decide)
    rw [number?, Int.decimal, if_neg hn, hm]
    simp only [Option.bind_eq_bind, whole?_toDigits, Option.bind_some, frac?, exponent?, numberOfParts, hv]
    simp [hc, he]

end Chronicle.Document

namespace Chronicle.Num

/-- Whether the number is read from the characters as which it is written. -/
def ReadsBack (n : Num) : Prop := Document.number? n.render = some (.num n, [])

theorem readsBack_int {n : Int} (hl : -twoTo 63 ≤ n) (hu : n < twoTo 64) : (Num.int n).ReadsBack :=
  Document.number?_decimal hl hu

end Chronicle.Num
