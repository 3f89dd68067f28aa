import Chronicle.Proofs.Rescheduling

/-!
# Commands that have no effect

A command that is skipped or fails leaves the state as it is, however far it has got before. So a batch does to a
state what its applied commands do on their own, and these are all applied then too.
-/

namespace Chronicle

/-- The entries of the commands that were applied. -/
def Report.effective (r : Report) : Report := r.filter fun entry => entry.2 = .applied

namespace State

variable {tick : Tick} {s s' : State} {outcome : CommandOutcome}

theorem parsePath_eq_ok {path : String} {p : Path} (h : Path.ofString path = .ok p) : parsePath path = .ok p := by
  rw [parsePath, h]
  rfl

theorem setVar_eq_ok {p : Path} {value : Json} {vars : Object} (h : p.set value s.vars = .ok vars) :
    s.setVar p value = .ok (.applied, { s with vars }) := by
  rw [setVar, h]
  rfl

theorem execute_set {path : String} {p : Path} {value : Json} {vars : Object} (hp : Path.ofString path = .ok p)
    (h : p.set value s.vars = .ok vars) : s.execute tick (.set path value) = .ok (.applied, { s with vars }) := by
  simp only [execute, parsePath_eq_ok hp, setVar_eq_ok h, bind, Except.bind]

theorem applied_of_setVar {p : Path} {value : Json} (h : s.setVar p value = .ok (outcome, s')) :
    outcome = .applied := by
  obtain ⟨vars, -, h⟩ := exists_of_bind_ok h
  exact (Prod.mk.inj (Except.ok.inj h)).1.symm

theorem eq_of_addAt {p : Path} {delta : String} (h : s.addAt p delta = .ok (outcome, s'))
    (ho : outcome ≠ .applied) : s' = s := by
  unfold addAt at h
  split at h
  · exact absurd (Prod.mk.inj (Except.ok.inj h)).1.symm ho
  · split at h
    · exact (Prod.mk.inj (Except.ok.inj h)).2.symm
    · exact (Prod.mk.inj (Except.ok.inj h)).2.symm
    · split at h
      · exact absurd (applied_of_setVar h) ho
      · exact absurd h (throw_ne_ok _ _)

theorem eq_of_cancel {identifier : String} (ho : (s.cancel identifier).1 ≠ .applied) :
    (s.cancel identifier).2 = s := by
  unfold cancel at ho ⊢
  split at ho
  · next he => rw [if_pos he]
  · next he =>
    rw [if_neg he]
    split at ho
    · exact absurd rfl ho
    · split at ho
      · exact absurd rfl ho
      · next hn => rw [if_neg hn]

theorem eq_of_execute {c : Command} (h : s.execute tick c = .ok (outcome, s')) (ho : outcome ≠ .applied) :
    s' = s := by
  cases c with
  | set path value =>
    obtain ⟨p, -, h⟩ := exists_of_bind_ok h
    exact absurd (applied_of_setVar h) ho
  | add path delta =>
    obtain ⟨p, -, h⟩ := exists_of_bind_ok h
    exact eq_of_addAt h ho
  | timedSet path value reason gameTime time =>
    obtain ⟨p, -, h⟩ := exists_of_bind_ok h
    obtain ⟨target, -, h⟩ := exists_of_bind_ok h
    exact absurd (Prod.mk.inj (Except.ok.inj h)).1.symm ho
  | responseSummary text => exact absurd (Prod.mk.inj (Except.ok.inj h)).1.symm ho
  | cancelSet identifier =>
    have hcancel : s.cancel identifier = (outcome, s') := Except.ok.inj h
    have heq : (s.cancel identifier).2 = s := eq_of_cancel (by rwa [hcancel])
    rwa [hcancel] at heq

theorem eq_of_applyOne {c : Command} (ho : (s.applyOne tick c).1 ≠ .applied) : (s.applyOne tick c).2 = s := by
  unfold applyOne at ho ⊢
  cases he : s.execute tick c with
  | ok result =>
    rw [he] at ho
    exact eq_of_execute he ho
  | error e => rfl

theorem apply_cons (tick : Tick) (s : State) (c : Command) (cs : List Command) : s.apply tick (c :: cs) =
    ((c, (s.applyOne tick c).1) :: ((s.applyOne tick c).2.apply tick cs).1, ((s.applyOne tick c).2.apply tick cs).2) :=
  rfl

/-- The second part of a batch starts from the state that the first part leaves. -/
theorem apply_append (tick : Tick) (s : State) (cs ds : List Command) : s.apply tick (cs ++ ds) =
    ((s.apply tick cs).1 ++ ((s.apply tick cs).2.apply tick ds).1, ((s.apply tick cs).2.apply tick ds).2) := by
  induction cs generalizing s with
  | nil => rfl
  | cons c cs ih => simp only [List.cons_append, apply_cons, ih]

theorem apply_concat (tick : Tick) (s : State) (cs : List Command) (c : Command) :
    (s.apply tick (cs ++ [c])).2 = ((s.apply tick cs).2.applyOne tick c).2 := by
  rw [apply_append]
  rfl

/-- The applied commands of a batch, applied on their own to the state that it started from, are all applied
again and give the same state. -/
theorem apply_effective (tick : Tick) (s : State) (commands : List Command) :
    s.apply tick ((Report.effective (s.apply tick commands).1).map (·.1)) =
      (Report.effective (s.apply tick commands).1, (s.apply tick commands).2) := by
  induction commands generalizing s with
  | nil => rfl
  | cons c commands ih =>
    have hrest := ih (s.applyOne tick c).2
    unfold Report.effective at hrest ⊢
    rw [apply_cons]
    by_cases ho : (s.applyOne tick c).1 = .applied
    · rw [List.filter_cons_of_pos (by simpa using ho), List.map_cons, apply_cons, hrest]
    · rw [List.filter_cons_of_neg (by simpa using ho)]
      rwa [eq_of_applyOne ho] at hrest ⊢

/-- The commands of a batch are isolated from each other's failures. All of them are reported, in their order; one
that is reported as skipped or failed leaves the whole state as the commands before it have made it, and the ones
after it go on from there; and the applied ones alone make the same state, each of them applied again. -/
theorem apply_isolates (tick : Tick) (s : State) (commands : List Command) :
    (s.apply tick commands).1.map (·.1) = commands ∧
      (∀ before c after, commands = before ++ c :: after → ∃ outcome,
        s.apply tick commands =
            ((s.apply tick before).1 ++ (c, outcome) :: ((s.apply tick (before ++ [c])).2.apply tick after).1,
              ((s.apply tick (before ++ [c])).2.apply tick after).2) ∧
          (outcome ≠ .applied → (s.apply tick (before ++ [c])).2 = (s.apply tick before).2)) ∧
      s.apply tick ((Report.effective (s.apply tick commands).1).map (·.1)) =
        (Report.effective (s.apply tick commands).1, (s.apply tick commands).2) ∧
      ∀ entry ∈ Report.effective (s.apply tick commands).1, entry.2 = .applied := by
  refine ⟨commands_apply tick s commands, ?_, apply_effective tick s commands, ?_⟩
  · rintro before c after rfl
    refine ⟨((s.apply tick before).2.applyOne tick c).1, ?_, ?_⟩
    · rw [apply_append, apply_concat]
      rfl
    · rw [apply_concat]
      exact eq_of_applyOne
  · intro entry hentry
    simpa using (List.mem_filter.mp hentry).2

def market : State := ⟨[("tags", .arr [])], [], []⟩

def errands : List Command :=
  [.set "gold" (.ofNat 1), .set "tags.color" (.str "red"), .cancelSet "7", .add "gold" "2"]

theorem outcomes_errands : (market.apply ⟨0, ⟨0, 0⟩⟩ errands).1.map (·.2) =
    [.applied, .failed (.path (.keyOnArray "tags.color" "color")), .skipped .nothingScheduled, .applied] := by
  decide +kernel

theorem apply_isolates_errands : ∃ report s, market.apply ⟨0, ⟨0, 0⟩⟩ errands = (report, s) ∧
    report.map (·.2) =
      [.applied, .failed (.path (.keyOnArray "tags.color" "color")), .skipped .nothingScheduled, .applied] ∧
    (market.apply ⟨0, ⟨0, 0⟩⟩ (errands.take 2)).2 = (market.apply ⟨0, ⟨0, 0⟩⟩ (errands.take 1)).2 ∧
    market.apply ⟨0, ⟨0, 0⟩⟩ (report.effective.map (·.1)) = (report.effective, s) := by
  obtain ⟨-, hunchanged, halone, -⟩ := apply_isolates ⟨0, ⟨0, 0⟩⟩ market errands
  obtain ⟨outcome, hrun, hsame⟩ := hunchanged [.set "gold" (.ofNat 1)] (.set "tags.color" (.str "red"))
    [.cancelSet "7", .add "gold" "2"] rfl
  have hsecond := congrArg (·[1]?) outcomes_errands
  rw [hrun] at hsecond
  have houtcome : outcome = .failed (.path (.keyOnArray "tags.color" "color")) := Option.some.inj hsecond
  exact ⟨_, _, rfl, outcomes_errands, hsame (by simp [houtcome]), halone⟩

end State

end Chronicle
