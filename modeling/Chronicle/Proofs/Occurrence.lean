import Chronicle.Text.Blank
import Chronicle.Text.Search

/-!
# First and last occurrences of a pattern

`breakOn?` and `breakOnLast?` are characterised by what they cut a text into. For a pattern that does
not overlap itself the cut is found as soon as the text on the one side holds no occurrence.
-/

namespace Chronicle.Text

variable {pat text before after : List Char}

theorem isPrefixOf?_eq_some_iff : pat.isPrefixOf? text = some after ↔ text = pat ++ after := by
  induction pat generalizing text with
  | nil =>
    have hnil : [].isPrefixOf? text = some text := rfl
    rw [hnil, List.nil_append, Option.some.injEq]
  | cons c pat ih =>
    cases text with
    | nil =>
      have hnone : (c :: pat).isPrefixOf? [] = none := rfl
      simp [hnone]
    | cons d text =>
      have hstep : (c :: pat).isPrefixOf? (d :: text) = if c == d then pat.isPrefixOf? text else none := rfl
      by_cases h : c = d
      · subst h
        simp [hstep, ih]
      · simp [hstep, h, Ne.symm h]

theorem isPrefixOf?_eq_none_iff : pat.isPrefixOf? text = none ↔ ¬pat <+: text := by
  constructor
  · rintro h ⟨after, rfl⟩
    simp [isPrefixOf?_eq_some_iff.mpr rfl] at h
  · intro h
    cases hq : pat.isPrefixOf? text with
    | none => rfl
    | some after => exact absurd ⟨after, (isPrefixOf?_eq_some_iff.mp hq).symm⟩ h

theorem breakOn?_go (passed text : List Char) :
    breakOn?.go pat passed text = (breakOn? pat text).map fun (a, b) => (passed.reverse ++ a, b) := by
  induction text generalizing passed with
  | nil =>
    unfold breakOn? breakOn?.go
    cases pat.isPrefixOf? [] <;> simp
  | cons c text ih =>
    unfold breakOn? breakOn?.go
    cases pat.isPrefixOf? (c :: text) with
    | some after => simp
    | none =>
      simp only
      rw [ih (c :: passed), ih [c]]
      simp [Option.map_map, Function.comp_def]

theorem breakOn?_nil : breakOn? pat [] = (pat.isPrefixOf? []).map fun after => ([], after) := by
  unfold breakOn? breakOn?.go
  cases pat.isPrefixOf? [] <;> rfl

theorem breakOn?_cons (c : Char) (text : List Char) : breakOn? pat (c :: text) =
    match pat.isPrefixOf? (c :: text) with
    | some after => some ([], after)
    | none => (breakOn? pat text).map fun (a, b) => (c :: a, b) := by
  rw [breakOn?, breakOn?.go]
  cases pat.isPrefixOf? (c :: text) with
  | some after => rfl
  | none => exact breakOn?_go [c] text

/-- The text is cut around its first occurrence: none ends in the text before or in the occurrence. -/
theorem breakOn?_eq_some_iff (hp : pat ≠ []) : breakOn? pat text = some (before, after) ↔
    text = before ++ (pat ++ after) ∧ ¬pat <:+: before ++ pat.dropLast := by
  have hshort : ¬pat <:+: pat.dropLast := by
    intro h
    have := h.length_le
    have := List.length_pos_iff.mpr hp
    simp only [List.length_dropLast] at *
    omega
  constructor
  · intro h
    induction text generalizing before with
    | nil =>
      rw [breakOn?_nil] at h
      obtain ⟨rest, hr, he⟩ := Option.map_eq_some_iff.mp h
      obtain ⟨rfl, rfl⟩ := Prod.mk.inj he
      rw [List.nil_append, List.nil_append]
      exact ⟨isPrefixOf?_eq_some_iff.mp hr, hshort⟩
    | cons c text ih =>
      rw [breakOn?_cons] at h
      cases hq : pat.isPrefixOf? (c :: text) with
      | some rest =>
        rw [hq] at h
        obtain ⟨rfl, rfl⟩ := Prod.mk.inj (Option.some.inj h)
        rw [List.nil_append, List.nil_append]
        exact ⟨isPrefixOf?_eq_some_iff.mp hq, hshort⟩
      | none =>
        rw [hq] at h
        obtain ⟨⟨a, b⟩, hr, he⟩ := Option.map_eq_some_iff.mp h
        obtain ⟨rfl, rfl⟩ := Prod.mk.inj he
        obtain ⟨ht, hn⟩ := ih hr
        refine ⟨by rw [ht]; rfl, ?_⟩
        rw [List.cons_append, List.infix_cons_iff]
        rintro (hpre | hin)
        · apply isPrefixOf?_eq_none_iff.mp hq
          rw [ht]
          have hd : pat.dropLast <+: pat ++ b := (List.dropLast_prefix pat).trans (List.prefix_append _ _)
          exact hpre.trans (List.prefix_append_right_inj (c :: a) |>.mpr hd)
        · exact hn hin
  · rintro ⟨rfl, hn⟩
    induction before with
    | nil =>
      have hq := isPrefixOf?_eq_some_iff.mpr (rfl : pat ++ after = pat ++ after)
      cases h : pat ++ after with
      | nil =>
        rw [h] at hq
        rw [List.nil_append, breakOn?_nil, hq]
        rfl
      | cons c rest =>
        rw [h] at hq
        rw [List.nil_append, breakOn?_cons, hq]
    | cons c before ih =>
      have hq : pat.isPrefixOf? (c :: (before ++ (pat ++ after))) = none := by
        rw [isPrefixOf?_eq_none_iff]
        intro hpre
        apply hn
        have hd : c :: before ++ pat.dropLast <+: c :: (before ++ (pat ++ after)) := by
          rw [← List.cons_append, List.prefix_append_right_inj]
          exact (List.dropLast_prefix pat).trans (List.prefix_append _ _)
        have hlen : pat.length ≤ (c :: before ++ pat.dropLast).length := by
          simp only [List.length_append, List.length_cons, List.length_dropLast]
          omega
        exact (List.prefix_of_prefix_length_le hpre hd hlen).isInfix
      have hb := ih (fun hin => hn (List.infix_cons_iff.mpr (Or.inr hin)))
      rw [List.cons_append, breakOn?_cons, hq, hb]
      rfl

theorem breakOn?_eq_none_iff : breakOn? pat text = none ↔ ¬pat <:+: text := by
  induction text with
  | nil =>
    rw [breakOn?_nil, Option.map_eq_none_iff, isPrefixOf?_eq_none_iff]
    simp
  | cons c text ih =>
    rw [breakOn?_cons, List.infix_cons_iff, not_or, ← isPrefixOf?_eq_none_iff]
    cases pat.isPrefixOf? (c :: text) with
    | some after => simp
    | none => simp [ih]

/-- The text is cut around its last occurrence: none starts in the occurrence or in the text after. -/
theorem breakOnLast?_eq_some_iff (hp : pat ≠ []) : breakOnLast? pat text = some (before, after) ↔
    text = before ++ (pat ++ after) ∧ ¬pat <:+: pat.tail ++ after := by
  have hcut : breakOnLast? pat text = some (before, after) ↔
      breakOn? pat.reverse text.reverse = some (after.reverse, before.reverse) := by
    unfold breakOnLast?
    rw [Option.map_eq_some_iff]
    constructor
    · rintro ⟨⟨a, b⟩, h, he⟩
      obtain ⟨rfl, rfl⟩ := Prod.mk.inj he
      simpa using h
    · intro h
      exact ⟨_, h, by simp⟩
  have hr : pat.reverse ≠ [] := by simpa using hp
  have htext : after.reverse ++ (pat.reverse ++ before.reverse) = (before ++ (pat ++ after)).reverse := by simp
  have hend : after.reverse ++ pat.tail.reverse = (pat.tail ++ after).reverse := by simp
  rw [hcut, breakOn?_eq_some_iff hr, List.dropLast_reverse, htext, hend, List.reverse_inj, List.reverse_infix]

theorem breakOnLast?_eq_none_iff : breakOnLast? pat text = none ↔ ¬pat <:+: text := by
  rw [breakOnLast?, Option.map_eq_none_iff, breakOn?_eq_none_iff, List.reverse_infix]

/-- No proper end of the pattern is also a start of it, so no two occurrences overlap. -/
def Unbordered (pat : List Char) : Prop := ∀ k < pat.length, 0 < k → (pat.drop k).isPrefixOf pat = false

instance (pat : List Char) : Decidable (Unbordered pat) :=
  inferInstanceAs (Decidable (∀ k < pat.length, 0 < k → (pat.drop k).isPrefixOf pat = false))

theorem Unbordered.not_prefix (h : Unbordered pat) {u v : List Char} (hu : u ≠ []) (hv : v ≠ [])
    (he : pat = u ++ v) : ¬v <+: pat := by
  intro hpre
  have hdrop : pat.drop u.length = v := by rw [he, List.drop_left]
  have hlen : u.length < pat.length := by
    rw [he, List.length_append]
    have := List.length_pos_iff.mpr hv
    omega
  have hf := h u.length hlen (List.length_pos_iff.mpr hu)
  rw [hdrop] at hf
  exact absurd (List.isPrefixOf_iff_prefix.mpr hpre) (by simp [hf])

theorem Unbordered.infix_append_dropLast_iff (h : Unbordered pat) (hp : pat ≠ []) :
    pat <:+: before ++ pat.dropLast ↔ pat <:+: before := by
  constructor
  · rw [List.infix_append_iff_ne_nil]
    rintro (hin | hin | ⟨u, v, hu, hv, he, -, hpre⟩)
    · exact hin
    · have := hin.length_le
      have := List.length_pos_iff.mpr hp
      simp only [List.length_dropLast] at *
      omega
    · exact absurd (hpre.trans (List.dropLast_prefix pat)) (h.not_prefix hu hv he)
  · exact fun hin => hin.trans (List.prefix_append _ _).isInfix

theorem Unbordered.infix_tail_append_iff (h : Unbordered pat) (hp : pat ≠ []) :
    pat <:+: pat.tail ++ after ↔ pat <:+: after := by
  constructor
  · rw [List.infix_append_iff_ne_nil]
    rintro (hin | hin | ⟨u, v, hu, hv, he, hsuf, -⟩)
    · have := hin.length_le
      have := List.length_pos_iff.mpr hp
      simp only [List.length_tail] at *
      omega
    · exact hin
    · -- the start `u` is an end of the pattern, so it is cut off after a start `w` of it
      obtain ⟨w, hw⟩ := hsuf.trans (List.tail_suffix pat)
      have hw' : w ≠ [] := by
        rintro rfl
        rw [List.nil_append] at hw
        exact hv (by simpa [hw] using he)
      exact absurd ⟨v, he.symm⟩ (h.not_prefix hw' hu hw.symm)
  · exact fun hin => hin.trans (List.suffix_append _ _).isInfix

theorem breakOn?_append (h : Unbordered pat) (hp : pat ≠ []) (hb : ¬pat <:+: before) :
    breakOn? pat (before ++ (pat ++ after)) = some (before, after) :=
  (breakOn?_eq_some_iff hp).mpr ⟨rfl, fun hin => hb ((h.infix_append_dropLast_iff hp).mp hin)⟩

theorem breakOnLast?_append (h : Unbordered pat) (hp : pat ≠ []) (ha : ¬pat <:+: after) :
    breakOnLast? pat (before ++ (pat ++ after)) = some (before, after) :=
  (breakOnLast?_eq_some_iff hp).mpr ⟨rfl, fun hin => ha ((h.infix_tail_append_iff hp).mp hin)⟩

/-- An occurrence in a text that is not all before a cut ends after it. -/
theorem exists_of_append_eq {a b c d : List Char} (h : ¬pat <:+: a) (he : a ++ b = c ++ (pat ++ d)) :
    ∃ mid, mid ≠ [] ∧ b = mid ++ d := by
  rw [← List.append_assoc] at he
  rcases List.append_eq_append_iff.mp he with ⟨mid, hc, hb⟩ | ⟨mid, rfl, -⟩
  · refine ⟨mid, ?_, hb⟩
    rintro rfl
    exact h ⟨c, [], by rw [List.append_nil, hc, List.append_nil]⟩
  · exact absurd ⟨c, mid, rfl⟩ h

/-- What follows any occurrence is an end of what follows the first one. -/
theorem exists_of_breakOn? {c d : List Char} (hp : pat ≠ []) (h : breakOn? pat text = some (before, after))
    (he : text = c ++ (pat ++ d)) : ∃ mid, after = mid ++ d := by
  obtain ⟨hcut, hfirst⟩ := (breakOn?_eq_some_iff hp).mp h
  have hsplit : (before ++ pat.dropLast) ++ (pat.getLast hp :: after) = c ++ (pat ++ d) :=
    calc (before ++ pat.dropLast) ++ (pat.getLast hp :: after)
        = before ++ ((pat.dropLast ++ [pat.getLast hp]) ++ after) := by simp
      _ = text := by rw [List.dropLast_concat_getLast, hcut]
      _ = c ++ (pat ++ d) := he
  obtain ⟨mid, hmid, hafter⟩ := exists_of_append_eq hfirst hsplit
  cases mid with
  | nil => exact absurd rfl hmid
  | cons e mid => exact ⟨mid, (List.cons.inj hafter).2⟩

theorem infix_append_cons_iff {c : Char} (h : c ∉ pat) :
    pat <:+: before ++ c :: after ↔ pat <:+: before ∨ pat <:+: after := by
  constructor
  · rw [List.infix_append_iff_ne_nil]
    rintro (hin | hin | ⟨u, v, -, hv, rfl, -, hpre⟩)
    · exact Or.inl hin
    · rcases List.infix_cons_iff.mp hin with hpre | hin
      · cases pat with
        | nil => exact Or.inl (List.nil_infix)
        | cons d pat =>
          have hd := (List.cons_prefix_cons.mp hpre).1
          exact absurd (by simp [hd]) h
      · exact Or.inr hin
    · cases v with
      | nil => exact absurd rfl hv
      | cons d v =>
        have hd := (List.cons_prefix_cons.mp hpre).1
        exact absurd (by simp [hd]) h
  · rintro (hin | hin)
    · exact hin.trans (List.prefix_append _ _).isInfix
    · exact hin.trans ((List.suffix_cons _ _).trans (List.suffix_append _ _)).isInfix

theorem not_infix_of_notMem {c : Char} (hc : c ∈ pat) (h : c ∉ text) : ¬pat <:+: text :=
  fun hin => h (hin.subset hc)

theorem infix_of_append_left {a s : List Char} (hp : pat ≠ []) (ha : ∀ c ∈ a, c ∉ pat) (h : pat <:+: a ++ s) :
    pat <:+: s := by
  rcases List.infix_append_iff_ne_nil.mp h with hin | hin | ⟨u, v, hu, -, rfl, hsuf, -⟩
  · obtain ⟨c, hc⟩ := List.exists_mem_of_ne_nil pat hp
    exact absurd hc (ha c (hin.subset hc))
  · exact hin
  · obtain ⟨c, hc⟩ := List.exists_mem_of_ne_nil u hu
    exact absurd (List.mem_append_left v hc) (ha c (hsuf.subset hc))

theorem infix_of_append_right_of_getLast? {s b : List Char} {c : Char} (hlast : pat.getLast? = some c) (hb : c ∉ b)
    (h : pat <:+: s ++ b) : pat <:+: s := by
  rcases List.infix_append_iff_ne_nil.mp h with hin | hin | ⟨u, v, -, hv, rfl, -, hpre⟩
  · exact hin
  · exact absurd (hin.subset (List.mem_of_getLast? hlast)) hb
  · rw [List.getLast?_append, List.getLast?_eq_some_getLast hv, Option.some_or] at hlast
    exact absurd (hpre.subset (List.getLast_mem hv)) (Option.some.inj hlast ▸ hb)

theorem infix_of_append_right {s b : List Char} (hp : pat ≠ []) (hb : ∀ c ∈ b, c ∉ pat) (h : pat <:+: s ++ b) :
    pat <:+: s :=
  infix_of_append_right_of_getLast? (List.getLast?_eq_some_getLast hp)
    (fun hin => hb _ hin (List.getLast_mem hp)) h

end Chronicle.Text
