import Chronicle.Proofs.Occurrence
import Chronicle.Text.Blank

/-!
# Blanks at the ends of a text
-/

namespace Chronicle.Text

variable {s : List Char}

theorem head?_trimLeft (s : List Char) : ∀ c ∈ (trimLeft s).head?, isBlank c = false := by
  induction s with
  | nil => simp [trimLeft]
  | cons c s ih =>
    unfold trimLeft at ih ⊢
    by_cases h : isBlank c = true
    · simpa only [List.dropWhile_cons_of_pos h] using ih
    · simpa [List.dropWhile_cons_of_neg h] using h

theorem trimLeft_eq_self (h : ∀ c ∈ s.head?, isBlank c = false) : trimLeft s = s := by
  cases s with
  | nil => rfl
  | cons c s =>
    have hc : ¬isBlank c = true := by simpa using h c rfl
    exact List.dropWhile_cons_of_neg hc

theorem trimRight_eq_self (h : ∀ c ∈ s.getLast?, isBlank c = false) : trimRight s = s := by
  have hr : trimLeft s.reverse = s.reverse := trimLeft_eq_self (by rwa [List.head?_reverse])
  unfold trimLeft at hr
  rw [trimRight, hr, List.reverse_reverse]

theorem trimLeft_append_left {a : List Char} (h : ∀ c ∈ a, isBlank c = true) (s : List Char) :
    trimLeft (a ++ s) = trimLeft s :=
  List.dropWhile_append_of_pos h

theorem trimRight_append_right {b : List Char} (h : ∀ c ∈ b, isBlank c = true) (s : List Char) :
    trimRight (s ++ b) = trimRight s := by
  unfold trimRight
  rw [List.reverse_append, List.dropWhile_append_of_pos (fun c hc => h c (List.mem_reverse.mp hc))]

theorem trimLeft_append_right (b : List Char) (h : trimLeft s ≠ []) : trimLeft (s ++ b) = trimLeft s ++ b := by
  unfold trimLeft at h ⊢
  rw [List.dropWhile_append]
  simp [h]

theorem trim_append {a b : List Char} (ha : ∀ c ∈ a, isBlank c = true) (hb : ∀ c ∈ b, isBlank c = true)
    (s : List Char) : trim (a ++ (s ++ b)) = trim s := by
  unfold trim
  rw [trimLeft_append_left ha]
  by_cases h : trimLeft s = []
  · have hall : ∀ c ∈ s ++ b, isBlank c = true := by
      intro c hc
      rcases List.mem_append.mp hc with hc | hc
      · rw [← List.takeWhile_append_dropWhile (p := isBlank) (l := s)] at hc
        unfold trimLeft at h
        rw [h, List.append_nil] at hc
        exact List.all_eq_true.mp List.all_takeWhile c hc
      · exact hb c hc
    have he : trimLeft (s ++ b) = [] := by
      have := trimLeft_append_left hall []
      simpa [trimLeft] using this
    rw [he, h]
  · rw [trimLeft_append_right b h, trimRight_append_right hb]

theorem trim_append_right {b : List Char} (hb : ∀ c ∈ b, isBlank c = true) (s : List Char) :
    trim (s ++ b) = trim s :=
  trim_append (a := []) (by simp) hb s

theorem trim_eq_self (h : ∀ c ∈ s.head?, isBlank c = false) (hl : ∀ c ∈ s.getLast?, isBlank c = false) :
    trim s = s := by
  rw [trim, trimLeft_eq_self h, trimRight_eq_self hl]

theorem trimLeft_suffix (s : List Char) : trimLeft s <:+ s := List.dropWhile_suffix _

theorem trimRight_isPrefix (s : List Char) : trimRight s <+: s := by
  rw [trimRight, ← List.reverse_suffix, List.reverse_reverse]
  exact List.dropWhile_suffix _

theorem trim_infix (s : List Char) : trim s <:+: s :=
  (trimRight_isPrefix _).isInfix.trans (trimLeft_suffix s).isInfix

theorem getLast?_trimRight (s : List Char) : ∀ c ∈ (trimRight s).getLast?, isBlank c = false := by
  rw [trimRight, List.getLast?_reverse]
  exact head?_trimLeft s.reverse

theorem head?_trim (s : List Char) : ∀ c ∈ (trim s).head?, isBlank c = false := by
  intro c hc
  apply head?_trimLeft s c
  obtain ⟨t, ht⟩ := trimRight_isPrefix (trimLeft s)
  rw [← ht]
  cases h : trimRight (trimLeft s) with
  | nil => simp [trim, h] at hc
  | cons d rest => simpa [trim, h] using hc

theorem trim_trim (s : List Char) : trim (trim s) = trim s :=
  trim_eq_self (head?_trim s) (getLast?_trimRight _)

theorem append_trimLeft (s : List Char) : ∃ a, (∀ c ∈ a, isBlank c = true) ∧ s = a ++ trimLeft s :=
  ⟨s.takeWhile isBlank, fun c hc => List.all_eq_true.mp List.all_takeWhile c hc,
    (List.takeWhile_append_dropWhile).symm⟩

theorem trimRight_append (s : List Char) : ∃ b, (∀ c ∈ b, isBlank c = true) ∧ s = trimRight s ++ b := by
  obtain ⟨a, ha, he⟩ := append_trimLeft s.reverse
  refine ⟨a.reverse, fun c hc => ha c (List.mem_reverse.mp hc), ?_⟩
  have hr := congrArg List.reverse he
  rwa [List.reverse_append, List.reverse_reverse] at hr

theorem trim_surrounded {before text after : List Char} (hb : ∀ c ∈ before, isBlank c = true)
    (ha : ∀ c ∈ after, isBlank c = true) (ht : ∀ c ∈ text, isBlank c = false) :
    trim (before ++ (text ++ after)) = text := by
  rw [trim_append hb ha]
  exact trim_eq_self (fun c hc => ht c (List.mem_of_mem_head? hc)) fun c hc => ht c (List.mem_of_mem_getLast? hc)

theorem exists_of_trim (s : List Char) : ∃ before after, (∀ c ∈ before, isBlank c = true) ∧
    (∀ c ∈ after, isBlank c = true) ∧ s = before ++ (trim s ++ after) := by
  obtain ⟨before, hbefore, hs⟩ := append_trimLeft s
  obtain ⟨after, hafter, ht⟩ := trimRight_append (trimLeft s)
  exact ⟨before, after, hbefore, hafter, by rw [trim, ← ht, ← hs]⟩

/-- Trimming does not cut into a pattern without blanks. -/
theorem trim_cons {c : Char} (h : isBlank c = false) (s : List Char) : ∃ t, trim (c :: s) = c :: t := by
  obtain ⟨b, hb, he⟩ := trimRight_append (c :: s)
  rw [trim, trimLeft_eq_self (by simpa using h)]
  cases ht : trimRight (c :: s) with
  | nil =>
    rw [ht, List.nil_append] at he
    have hc := hb c (he ▸ List.mem_cons_self)
    rw [h] at hc
    exact absurd hc (by decide)
  | cons d t =>
    rw [ht, List.cons_append] at he
    exact ⟨t, by rw [(List.cons.inj he).1]⟩

theorem infix_trim {pat : List Char} (hp : pat ≠ []) (hb : ∀ c ∈ pat, isBlank c = false)
    (h : pat <:+: s) : pat <:+: trim s := by
  obtain ⟨a, ha, hs⟩ := append_trimLeft s
  obtain ⟨b, hb', ht⟩ := trimRight_append (trimLeft s)
  have hout {l : List Char} (hl : ∀ c ∈ l, isBlank c = true) : ∀ c ∈ l, c ∉ pat := by
    intro c hc hin
    exact Bool.false_ne_true ((hb c hin).symm.trans (hl c hc))
  rw [hs] at h
  have h := infix_of_append_left hp (hout ha) h
  rw [ht] at h
  exact infix_of_append_right hp (hout hb') h

end Chronicle.Text
