import Chronicle.Proofs.Timestamps

/-!
# Years without four digits

An instant outside the years 0 to 9999 is written with a sign in front of its year. The Internet form has no such
years, and the dates of commands have no `Z` at their end, so such an instant is not read back.
-/

namespace Chronicle

/-- The first text goes on with the second one, and there is no `Z` before that. -/
def Passes (text rest : List Char) : Prop := ∃ passed, passed ++ rest = text ∧ 'Z' ∉ passed

namespace Passes

variable {text rest rest' : List Char}

theorem refl (text : List Char) : Passes text text := ⟨[], rfl, List.not_mem_nil⟩

theorem trans (h : Passes text rest) (h' : Passes rest rest') : Passes text rest' := by
  obtain ⟨p, rfl, hp⟩ := h
  obtain ⟨q, rfl, hq⟩ := h'
  exact ⟨p ++ q, List.append_assoc _ _ _, by simp [hp, hq]⟩

theorem cons {c : Char} (hc : c ≠ 'Z') (rest : List Char) : Passes (c :: rest) rest :=
  ⟨[c], rfl, by simpa using hc.symm⟩

theorem mem (h : Passes text rest) (hz : 'Z' ∈ text) : 'Z' ∈ rest := by
  obtain ⟨p, rfl, hp⟩ := h
  exact (List.mem_append.mp hz).resolve_left hp

theorem of_all {passed : List Char} {p : Char → Bool} (hp : p 'Z' = false) (h : ∀ c ∈ passed, p c = true)
    (heq : passed ++ rest = text) : Passes text rest :=
  ⟨passed, heq, fun hz => absurd (h 'Z' hz) (by simp [hp])⟩

theorem cut {p : Char → Bool} (hp : p 'Z' = false) (text : List Char) : Passes text (text.dropWhile p) :=
  of_all hp (fun c hc => List.all_eq_true.mp List.all_takeWhile c hc) List.takeWhile_append_dropWhile

end Passes

namespace DateItem

variable {text rest : List Char}

theorem passes_number? {width n : Nat} (h : number? width text = some (n, rest)) : Passes text rest := by
  let ds := ((Text.trimLeft text).take width).takeWhile Char.isDigit
  have hds : ∀ c ∈ ds, c.isDigit = true := fun c hc => List.all_eq_true.mp List.all_takeWhile c hc
  have hprefix : ds <+: Text.trimLeft text := (List.takeWhile_prefix _).trans (List.take_prefix _ _)
  have hrest : rest = (Text.trimLeft text).drop ds.length := by
    unfold number? at h
    simp only at h
    split at h
    · exact absurd h (by simp)
    · exact (Prod.mk.inj (Option.some.inj h)).2.symm
  have htrim : Passes text (Text.trimLeft text) := Passes.cut (by decide) text
  rw [hrest]
  exact htrim.trans (Passes.of_all (by decide) hds (List.prefix_iff_eq_append.mp hprefix))

theorem passes_year? {n : Int} (h : year? text = some (n, rest)) : Passes text rest := by
  have htrim : Passes text (Text.trimLeft text) := Passes.cut (by decide) text
  have hsigned {sign : Int} {after : List Char} (h : (if (after.takeWhile Char.isDigit).isEmpty then none
      else some (sign * (Nat.ofDigitChars 10 (after.takeWhile Char.isDigit) 0 : Nat), after.dropWhile Char.isDigit)) =
        some (n, rest)) : Passes after rest := by
    split at h
    · exact absurd h (by simp)
    · exact (Prod.mk.inj (Option.some.inj h)).2 ▸ Passes.cut (by decide) after
  unfold year? at h
  simp only at h
  split at h
  · next after heq => exact (heq ▸ htrim).trans ((Passes.cons (by decide) after).trans (hsigned h))
  · next after heq => exact (heq ▸ htrim).trans ((Passes.cons (by decide) after).trans (hsigned h))
  · obtain ⟨⟨k, after⟩, hk, heq⟩ := Option.map_eq_some_iff.mp h
    rw [← (Prod.mk.inj heq).2]
    exact htrim.trans (passes_number? hk)

def isZ : DateItem → Bool
  | char d => d = 'Z'
  | _ => false

theorem passes_read? {item : DateItem} {c c' : CivilTime} (h : item.read? c text = some (c', rest))
    (hz : item.isZ = false) : Passes text rest := by
  cases item
  case year =>
    obtain ⟨⟨n, after⟩, hn, heq⟩ := Option.map_eq_some_iff.mp h
    exact (Prod.mk.inj heq).2 ▸ passes_year? hn
  case blanks => exact (Prod.mk.inj (Option.some.inj h)).2 ▸ Passes.cut (by decide) text
  case char d =>
    obtain ⟨after, hafter, heq⟩ := Option.map_eq_some_iff.mp h
    obtain rfl := (Prod.mk.inj heq).2
    unfold Text.expect? at hafter
    split at hafter
    · split at hafter
      · next hd =>
        rw [← Option.some.inj hafter, hd]
        exact Passes.cons (by simpa [isZ] using hz) _
      · exact absurd hafter (by simp)
    · exact absurd hafter (by simp)
  all_goals
    obtain ⟨⟨n, after⟩, hn, heq⟩ := Option.map_eq_some_iff.mp h
    exact (Prod.mk.inj heq).2 ▸ passes_number? hn

theorem readAll?_eq_none {items : List DateItem} (hi : ∀ item ∈ items, item.isZ = false) (c : CivilTime)
    (hz : 'Z' ∈ text) : readAll? c text items = none := by
  induction items generalizing c text with
  | nil =>
    cases text with
    | nil => exact absurd hz List.not_mem_nil
    | cons d text => rfl
  | cons item items ih =>
    unfold readAll?
    cases hread : item.read? c text with
    | none => rfl
    | some after =>
      have hpasses := passes_read? hread (hi item List.mem_cons_self)
      exact ih (fun item hitem => hi item (List.mem_cons_of_mem _ hitem)) after.1 (hpasses.mem hz)

/-- No date with or without a time of day holds a `Z`. -/
theorem findSome?_formats_eq_none (hz : 'Z' ∈ text) (f : CivilTime → Option Instant) (c : CivilTime) :
    formats.findSome? (fun items => (readAll? c text items).bind f) = none := by
  have hall : formats.all (fun items => items.all fun item => !item.isZ) = true := by decide
  rw [List.findSome?_eq_none_iff]
  intro items hitems
  have hi : ∀ item ∈ items, item.isZ = false := fun item hitem => by
    simpa using List.all_eq_true.mp (List.all_eq_true.mp hall items hitems) item hitem
  rw [readAll?_eq_none hi c hz]
  rfl

end DateItem

namespace Instant

variable {t : Instant}

theorem renderYear_eq_cons {year : Int} (h : ¬(0 ≤ year ∧ year ≤ 9999)) :
    ∃ c ds, renderYear year = c :: ds ∧ c.isDigit = false ∧ Text.isBlank c = false := by
  unfold renderYear
  rw [if_neg h]
  by_cases hneg : year < 0
  · rw [if_pos hneg]
    exact ⟨'-', _, rfl, rfl, rfl⟩
  · rw [if_neg hneg]
    exact ⟨'+', _, rfl, rfl, rfl⟩

theorem render_eq_cons (h : ¬(0 ≤ t.toCivil.date.year ∧ t.toCivil.date.year ≤ 9999)) :
    ∃ c rest, t.render = c :: rest ∧ c.isDigit = false ∧ Text.isBlank c = false := by
  obtain ⟨c, ds, hyear, hc⟩ := renderYear_eq_cons h
  unfold render
  simp only [hyear, List.cons_append]
  exact ⟨c, _, rfl, hc⟩

theorem getLast?_render (t : Instant) : t.render.getLast? = some 'Z' := List.getLast?_concat

theorem ofInternet?_cons {c : Char} (hc : c.isDigit = false) (rest : List Char) : ofInternet? (c :: rest) = none := by
  have hdigits : Text.fixedDigits? 4 (c :: rest) = none := by
    unfold Text.fixedDigits?
    rw [if_neg]
    simp [hc]
  rw [ofInternet?, hdigits]
  rfl

/-- An instant whose year has a sign is not read back. -/
theorem ofText?_render_eq_none (h : ¬(0 ≤ t.toCivil.date.year ∧ t.toCivil.date.year ≤ 9999)) :
    ofText? (.ofList t.render) = none := by
  obtain ⟨c, rest, hrender, hdigit, hblank⟩ := render_eq_cons h
  have hlast := getLast?_render t
  have htrim : Text.trim t.render = t.render := by
    apply Text.trim_eq_self
    · intro d hd
      rw [hrender] at hd
      rwa [← Option.some.inj hd]
    · intro d hd
      rw [hlast] at hd
      rw [← Option.some.inj hd]
      decide
  have hinternet : ofInternet? t.render = none := by rw [hrender, ofInternet?_cons hdigit]
  rw [ofText?, String.toList_ofList, htrim, hinternet,
    DateItem.findSome?_formats_eq_none (List.mem_of_getLast? hlast)]
  rfl

/-- What a command gives as an instant reads back from its Internet form exactly if its year in UTC has four
digits. -/
theorem ofText?_render_iff {text : String} (h : ofText? text = some t) :
    ofText? (.ofList t.render) = some t ↔ 0 ≤ t.toCivil.date.year ∧ t.toCivil.date.year ≤ 9999 := by
  constructor
  · intro hback
    apply Decidable.byContradiction
    intro hyear
    rw [ofText?_render_eq_none hyear] at hback
    exact absurd hback (by simp)
  · rintro ⟨hl, hu⟩
    exact ofText?_render (isValid_of_ofText? h) hl hu

end Instant

end Chronicle
