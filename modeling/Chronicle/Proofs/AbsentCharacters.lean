import Chronicle.Proofs.CommandInvariants
import Chronicle.Proofs.ParsedCommands
import Chronicle.Proofs.PathGrammar
import Chronicle.Proofs.Snapshots
import Chronicle.Proofs.SortedValues

/-!
# Characters that no command brings in

What a state gets from commands are parts of their texts, besides the digits of positions and numbers. A character that
is no digit and is in none of these texts stays out of the state.
-/

namespace Chronicle

theorem Text.mem_of_mem_splitOn {sep c : Char} {text part : List Char} (hp : part ∈ text.splitOn sep) (hc : c ∈ part) :
    c ∈ text := by
  induction text generalizing part with
  | nil =>
    rw [List.splitOn_nil, List.mem_singleton] at hp
    exact absurd (hp ▸ hc) List.not_mem_nil
  | cons d text ih =>
    rw [List.splitOn_cons_eq_if_modifyHead] at hp
    split at hp
    · rcases List.mem_cons.mp hp with rfl | hp
      · exact absurd hc List.not_mem_nil
      · exact List.mem_cons_of_mem d (ih hp hc)
    · cases hs : text.splitOn sep with
      | nil =>
        rw [hs] at hp
        exact absurd hp List.not_mem_nil
      | cons first rest =>
        rw [hs] at hp ih
        rcases List.mem_cons.mp hp with rfl | hp
        · rcases List.mem_cons.mp hc with rfl | hc
          · exact List.mem_cons_self
          · exact List.mem_cons_of_mem d (ih List.mem_cons_self hc)
        · exact List.mem_cons_of_mem d (ih (List.mem_cons_of_mem first hp) hc)

namespace Path

variable {c : Char} (hd : c.isDigit = false)

include hd

theorem mem_toKey_of_isPart {part : List Char} {segments : List Segment} (h : IsPart part segments) :
    ∀ s ∈ segments, c ∈ s.toKey.toList → c ∈ part := by
  obtain ⟨name, groups, ns, rfl, -, -, -, rfl⟩ := h
  intro s hs hc
  rcases List.mem_append.mp hs with hs | hs
  · obtain rfl := eq_of_mem_keyOf hs
    rw [Segment.toKey, String.toList_ofList] at hc
    exact List.mem_append_left _ hc
  · obtain ⟨n, -, rfl⟩ := List.mem_map.mp hs
    rw [Segment.toKey, String.toList_ofList] at hc
    exact absurd ((Document.isDigit_of_mem_toDigits hc).symm.trans hd) (by decide)

/-- The text of a path and its keys are parts of the text that it is read from. -/
theorem mem_of_ofString {text : String} {p : Path} (h : ofString text = .ok p) :
    (c ∈ p.text.toList → c ∈ text.toList) ∧ ∀ s ∈ p.segments, c ∈ s.toKey.toList → c ∈ text.toList := by
  have htrim : c ∈ Text.trim text.toList → c ∈ text.toList := fun hc => (Text.trim_infix _).subset hc
  obtain ⟨-, htext, segments, hparts, hsegments⟩ := ofString_eq_ok_iff.mp h
  constructor
  · rw [htext, String.toList_ofList]
    exact htrim
  · rw [hsegments]
    intro s hs hc
    obtain ⟨read, hmem, hs⟩ := List.mem_flatten.mp hs
    obtain ⟨part, hpart, hread⟩ := exists_of_mem_forall₂ hparts.flip read hmem
    exact htrim (Text.mem_of_mem_splitOn hpart (mem_toKey_of_isPart hd hread s hs hc))

end Path

namespace Policy

/-- No text holds the character. -/
def without (c : Char) : Policy where
  Text t := c ∉ t.toList
  Value v := ∀ t ∈ v.texts, c ∉ t.toList
  Target _ := True

variable {c : Char}

theorem hereditary_without (c : Char) : Json.Hereditary (without c).Text (without c).Value where
  null := by simp [without]
  arr := by
    intro items
    simp only [without, Json.mem_texts_arr]
    constructor
    · exact fun h v hv t ht => h t ⟨v, hv, ht⟩
    · rintro h t ⟨v, hv, ht⟩
      exact h v hv t ht
  empty := by simp [without]
  insert := by
    intro key value fields hk hv hf t ht
    obtain ⟨f, hm, ht⟩ := Json.mem_texts_obj.mp ht
    rcases Object.mem_insert hm with rfl | hm
    · rcases ht with rfl | ht
      · exact hk
      · exact hv t ht
    · exact hf t (Json.mem_texts_obj.mpr ⟨f, hm, ht⟩)
  get? := by
    intro key value fields hf hg t ht
    exact hf t (Json.mem_texts_obj.mpr ⟨_, Json.mem_of_lookup hg, Or.inr ht⟩)

theorem closed_without (hd : c.isDigit = false) : (without c).Closed where
  tree := hereditary_without c
  str t ht u hu := Json.mem_texts_str.mp hu ▸ ht
  num := by simp [without]
  path t p ht hp := by
    obtain ⟨htext, hkeys⟩ := Path.mem_of_ofString hd hp
    exact ⟨fun hc => ht (htext hc), fun s hs hc => ht (hkeys s hs hc)⟩
  target _ _ _ _ _ := trivial

theorem value_ofText {t : String} (h : c ∉ t.toList) : (without c).Value (.ofText t) := by
  unfold Json.ofText
  split
  · simp [without]
  · exact fun u hu => Json.mem_texts_str.mp hu ▸ h

end Policy

theorem State.obeys_without_iff {s : State} {c : Char} : s.Obeys (.without c) ↔ ∀ t ∈ s.texts, c ∉ t.toList := by
  simp only [State.texts, State.values, List.mem_append, List.mem_flatMap, List.mem_cons]
  constructor
  · rintro ⟨hvars, hschedule, hsummaries⟩ t ((⟨v, rfl | hv, ht⟩ | ⟨w, hw, rfl | rfl | ht⟩) | ht)
    · exact hvars t ht
    · obtain ⟨w, hw, rfl⟩ := List.mem_map.mp hv
      exact (hschedule w hw).2.1 t ht
    · exact (hschedule w hw).1
    · exact (hschedule w hw).2.2.2
    · exact absurd ht List.not_mem_nil
    · exact hsummaries t ht
  · intro h
    refine ⟨fun t ht => h t (Or.inl (Or.inl ⟨_, Or.inl rfl, ht⟩)), fun w hw => ⟨?_, ?_, trivial, ?_⟩,
      fun t ht => h t (Or.inr ht)⟩
    · exact h w.name (Or.inl (Or.inr ⟨w, hw, Or.inl rfl⟩))
    · exact fun t ht => h t (Or.inl (Or.inl ⟨w.value, Or.inr (List.mem_map_of_mem hw), ht⟩))
    · exact h w.reason (Or.inl (Or.inr ⟨w, hw, Or.inr (Or.inl rfl)⟩))

namespace Command

theorem obeys_without_of_given {params : List Char} {command : Command} (h : Given params command) {c : Char}
    (hc : c ∉ params) : command.Obeys (.without c) := by
  have hfield : ∀ f ∈ fieldsOf params, c ∉ f.toList := fun f hf hm => hc ((infix_of_mem_fieldsOf hf).1.subset hm)
  cases h with
  | set hp hne hv => exact ⟨hfield _ hp, Policy.value_ofText (hfield _ hv)⟩
  | add hp hne hd => exact ⟨hfield _ hp, hfield _ hd⟩
  | timedSet hp hne hf =>
    have hrest := List.forall_mem_cons.mp hf
    exact ⟨hfield _ hp, Policy.value_ofText (hfield _ hrest.1.1), hfield _ (hrest.2 _ List.mem_cons_self).1⟩
  | responseSummary =>
    intro hm
    rw [String.toList_ofList] at hm
    exact hc ((Text.trim_infix params).subset hm)
  | cancelSet => trivial

/-- No command of a text brings a closing bracket in, since the first one ends the parameters. -/
theorem obeys_of_mem_parseAll {text : String} {command : Command} (h : command ∈ parseAll text) :
    command.Obeys (.without '>') := by
  obtain ⟨t, ht, hg⟩ := given_of_mem_parseAll h
  exact obeys_without_of_given hg ht.close_notMem

end Command

end Chronicle
