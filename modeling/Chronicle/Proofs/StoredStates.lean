import Chronicle.Proofs.Rescheduling

/-!
# What the store keeps of a state

A state whose instants come from commands is found again in the variable store with everything but the writes that
wait for an instant in a year without four digits. Fractions of a second and leap seconds stay.
-/

namespace Chronicle

/-- A target that a command can set: a round of 64 bits, or an instant that some text stands for. -/
def Target.Settable : Target → Prop
  | .round n => -twoTo 63 ≤ n ∧ n < twoTo 63
  | .gameTime t => ∃ text, Instant.ofText? text = some t

theorem Target.Settable.wellFormed {t : Target} (h : t.Settable) : t.WellFormed := by
  cases t with
  | round n => exact h
  | gameTime t =>
    obtain ⟨text, ht⟩ := h
    exact Instant.isValid_of_ofText? ht

namespace State

/-- A stored state is read back with all variables and summaries, and with those of its scheduled writes that wait for
a round or for a year from 0 to 9999, in their order and unchanged. -/
theorem ofStored?_toStored_eq_filter (s : State) (hvars : (Json.obj s.vars).Sorted)
    (hvalues : ∀ w ∈ s.schedule, w.value.Sorted) (htargets : ∀ w ∈ s.schedule, w.target.Settable) :
    ofStored? s.toStored = some { s with schedule := s.schedule.filter fun w => w.target.Legible } := by
  have hwrites : ∀ w ∈ s.schedule, w.WellFormed := fun w hw => ⟨hvalues w hw, (htargets w hw).wellFormed⟩
  exact ofStored?_of_scheduleOf ⟨hvars, hwrites⟩ (scheduleOf_toJson_eq_filter hwrites)

/-- A bell rings in round 5, and the sky changes in a leap second, just after the year 9999 and before the year 0. -/
def almanac : State where
  vars := [("hp", .ofNat 7)]
  schedule := [⟨"door", .str "open", .round 5, "bell"⟩, ⟨"sky", .str "dark", .gameTime ⟨1483228799, 1250000000⟩, "leap"⟩,
    ⟨"sky", .null, .gameTime ⟨253402302600, 0⟩, "late"⟩, ⟨"sky", .arr [.ofNat 1], .gameTime ⟨-62167219201, 0⟩, "early"⟩]
  summaries := ["they rested"]

theorem settable_almanac : ∀ w ∈ almanac.schedule, w.target.Settable := by
  have hround : (Target.round 5).Settable := ⟨by decide, by decide⟩
  have hleap : Instant.ofText? "2016-12-31 23:59:60.25Z" = some ⟨1483228799, 1250000000⟩ := by decide +kernel
  have hlate : Instant.ofText? "9999-12-31T23:30:00-01:00" = some ⟨253402302600, 0⟩ := by decide +kernel
  have hearly : Instant.ofText? "-1-12-31 23:59:59" = some ⟨-62167219201, 0⟩ := by decide +kernel
  simp only [almanac, List.mem_cons, List.not_mem_nil, or_false]
  rintro w (rfl | rfl | rfl | rfl)
  · exact hround
  · exact ⟨_, hleap⟩
  · exact ⟨_, hlate⟩
  · exact ⟨_, hearly⟩

theorem ofStored?_toStored_almanac : ofStored? almanac.toStored = some { almanac with schedule :=
    [⟨"door", .str "open", .round 5, "bell"⟩, ⟨"sky", .str "dark", .gameTime ⟨1483228799, 1250000000⟩, "leap"⟩] } := by
  rw [ofStored?_toStored_eq_filter almanac (by simp [almanac, Object.Ascending, Json.ofNat])
    (by simp [almanac, Json.ofNat]) settable_almanac]
  rfl

end State

end Chronicle
