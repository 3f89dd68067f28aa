import Chronicle.Proofs.Ledger

/-!
# Scheduled writes fire once

A write that a command schedules stays in the stored states until it is cancelled or due, and when it is due it is
written once. This holds of every write that can be read back: of all that wait for a round, and of those that wait
for an instant in a year of four digits. The others are lost when the state is loaded.
-/

namespace Chronicle

namespace State

variable {tick : Tick} {s : State}

theorem outcome_apply {cs : List Command} {before rest : Report} {c : Command} {outcome : CommandOutcome}
    (h : (s.apply tick cs).1 = before ++ (c, outcome) :: rest) :
    ((s.apply tick (before.map (·.1))).2.applyOne tick c).1 = outcome := by
  induction before generalizing s cs with
  | nil =>
    cases cs with
    | nil => exact absurd h (by simp [apply])
    | cons d cs =>
      rw [apply, List.nil_append] at h
      obtain ⟨rfl, rfl⟩ := Prod.mk.inj (List.cons.inj h).1
      rfl
  | cons entry before ih =>
    cases cs with
    | nil => exact absurd h (by simp [apply])
    | cons d cs =>
      rw [apply, List.cons_append] at h
      obtain ⟨rfl, hrest⟩ := List.cons.inj h
      exact ih hrest

theorem scheduled_of_applied {path reason time : String} {value : Json} {gameTime : Bool}
    (h : (s.applyOne tick (.timedSet path value reason gameTime time)).1 = .applied) :
    ∃ p target, Path.ofString path = .ok p ∧ scheduleTarget tick gameTime time = .ok target ∧
      (Command.timedSet path value reason gameTime time).scheduled? tick = some ⟨p.text, value, target, reason⟩ := by
  cases hp : parsePath path with
  | error e => exact absurd h (by simp [applyOne, execute, hp, bind, Except.bind])
  | ok p =>
    cases ht : scheduleTarget tick gameTime time with
    | error e => exact absurd h (by simp [applyOne, execute, hp, ht, bind, Except.bind])
    | ok target => exact ⟨p, target, ok_of_mapError_ok hp, rfl, by simp [Command.scheduled?, hp, ht]⟩

end State

namespace Ledger

variable {L : Ledger} {b : Booking}

/-- In whatever turns follow, a booking is there until it is due or cancelled; when it is there and due it is
promoted, once, and otherwise it is not; and what is left of the ledger keeps its order. -/
structure FiresOnce (L : Ledger) (b : Booking) : Prop where
  pending : ∀ plays : List Play, b ∈ (L.after plays).bookings ↔ b ∈ L.bookings ∧
    ∀ before p rest, plays = before ++ p :: rest → ¬b.write.isDue p.tick = true ∧ ¬(L.after before).CancelsIn p b
  fires : ∀ (plays : List Play) (p : Play), b ∈ (L.after plays).bookings → b.write.isDue p.tick = true →
    ((L.after plays).reload.due p.tick).filter (·.ticket = b.ticket) = [b]
  rests : ∀ (plays : List Play) (p : Play), ¬(b ∈ (L.after plays).bookings ∧ b.write.isDue p.tick = true) →
    ((L.after plays).reload.due p.tick).filter (·.ticket = b.ticket) = []
  order : ∀ plays, L.Follows (L.after plays)

theorem mem_after_iff (ht : b.ticket < L.issued) (hl : b.write.target.Legible) (plays : List Play) :
    b ∈ (L.after plays).bookings ↔ b ∈ L.bookings ∧ ∀ before p rest, plays = before ++ p :: rest →
      ¬b.write.isDue p.tick = true ∧ ¬(L.after before).CancelsIn p b := by
  induction plays generalizing L with
  | nil =>
    refine ⟨fun h => ⟨h, fun before p rest hplays => ?_⟩, fun h => h.1⟩
    exact absurd hplays (by simp)
  | cons q plays ih =>
    have hrest := ih (L := L.next q) (Nat.lt_of_lt_of_le ht (follows_next L q).issued)
    have hafter : L.after (q :: plays) = (L.next q).after plays := rfl
    rw [hafter, hrest]
    constructor
    · rintro ⟨hnext, hlater⟩
      have hb := (follows_next L q).mem ht hnext
      refine ⟨hb, ?_⟩
      intro before p rest hplays
      cases before with
      | nil =>
        obtain ⟨rfl, -⟩ := List.cons.inj hplays
        exact (mem_next_iff hb hl).mp hnext
      | cons r before =>
        obtain ⟨rfl, htail⟩ := List.cons.inj hplays
        exact hlater before p rest htail
    · rintro ⟨hb, hall⟩
      refine ⟨(mem_next_iff hb hl).mpr (hall [] q plays rfl), ?_⟩
      intro before p rest hplays
      exact hall (q :: before) p rest (by rw [hplays]; rfl)

theorem mem_due_iff {tick : Tick} : b ∈ L.due tick ↔ b ∈ L.bookings ∧ b.write.isDue tick = true := List.mem_filter

theorem ascending_due (L : Ledger) (tick : Tick) : ((L.due tick).map (·.ticket)).Pairwise (· < ·) :=
  L.ascending.sublist (List.filter_sublist.map _)

/-- A booking that can be read back fires once, if the ledger has no other booking with its ticket. -/
theorem firesOnce (ht : b.ticket < L.issued) (hl : b.write.target.Legible)
    (honly : ∀ a ∈ L.bookings, a.ticket = b.ticket → a = b) : L.FiresOnce b where
  pending := mem_after_iff ht hl
  fires plays p hb hd := by
    apply filter_ticket (ascending_due _ _)
    exact mem_due_iff.mpr ⟨mem_reload_iff.mpr ⟨hb, hl⟩, hd⟩
  rests plays p hnot := by
    rw [List.filter_eq_nil_iff]
    intro a ha hticket
    obtain ⟨hloaded, hd⟩ := mem_due_iff.mp ha
    have hticket : a.ticket = b.ticket := of_decide_eq_true hticket
    have hafter := (mem_reload_iff.mp hloaded).1
    have hstart : a ∈ L.bookings := (follows_after L plays).mem (hticket ▸ ht) hafter
    obtain rfl := honly a hstart hticket
    exact hnot ⟨hafter, hd⟩
  order := follows_after L

/-- The ledger of a turn on a stored state, when some of its commands have been applied. -/
def opening (stored : Json) (p : Play) (cs : List Command) : Ledger :=
  ((ofState (State.load stored)).promote p.tick).commands p.tick cs

/-- In a turn on a stored state a command makes a booking, and the turn leaves a ledger. The ledger goes on with
the states that are stored after it: they are its states, and every turn on one of them begins with its due writes. -/
structure Books (stored : Json) (p : Play) (before : Report) (c : Command) (rest : Report) (b : Booking) (L : Ledger) :
    Prop where
  booked : (opening stored p (before.map (·.1) ++ [c])).bookings = (opening stored p (before.map (·.1))).bookings ++ [b]
  left : L = opening stored p ((p.run stored).1.map (·.1))
  kept : b ∈ L.bookings ↔ ¬Cancels p.tick (opening stored p (before.map (·.1) ++ [c])) (rest.map (·.1)) b
  follows : (opening stored p (before.map (·.1) ++ [c])).Follows L
  states : ∀ plays, Play.storedAfter plays (p.run stored).2 = (L.after plays).state.toStored
  reports : ∀ plays (q : Play), (q.run (Play.storedAfter plays (p.run stored).2)).1.map (·.1) =
    ((L.after plays).reload.due q.tick).map Booking.toCommand ++ Command.parseAll q.text

variable {stored : Json} {p : Play} {before rest : Report} {c : Command} {outcome : CommandOutcome}

theorem opening_append (stored : Json) (p : Play) (cs cs' : List Command) :
    opening stored p (cs ++ cs') = (opening stored p cs).commands p.tick cs' := List.foldl_append

theorem opening_run (stored : Json) (p : Play) :
    opening stored p ((p.run stored).1.map (·.1)) = (ofState (State.load stored)).play p := by
  rw [Play.run, State.commands_apply]
  rfl

theorem exists_books (h : (p.run stored).1 = before ++ (c, outcome) :: rest) {w : ScheduledWrite}
    (hw : c.scheduled? p.tick = some w) : ∃ b L, b.write = w ∧ Books stored p before c rest b L ∧
      b.ticket < L.issued ∧ ∀ a ∈ L.bookings, a.ticket = b.ticket → a = b := by
  let L₀ := opening stored p (before.map (·.1))
  let L₁ := opening stored p (before.map (·.1) ++ [c])
  let L := opening stored p ((p.run stored).1.map (·.1))
  let b : Booking := ⟨L₀.issued, w⟩
  have hbooked : L₁.bookings = L₀.bookings ++ [b] := by
    rw [show L₁ = L₀.commands p.tick [c] from opening_append _ _ _ _]
    exact Command.reschedule_of_scheduled hw _
  have hb : b ∈ L₁.bookings := by
    rw [hbooked]
    exact List.mem_append_right _ List.mem_cons_self
  have hleft : L = L₁.commands p.tick (rest.map (·.1)) := by
    rw [← opening_append, List.append_assoc, List.singleton_append]
    exact congrArg (opening stored p) (by rw [h, List.map_append, List.map_cons])
  have hfollows : L₁.Follows L := hleft ▸ follows_commands p.tick L₁ _
  have hstate : L.state.toStored = (p.run stored).2 := by
    rw [show L = (ofState (State.load stored)).play p from opening_run stored p, state_play]
    rfl
  have hw : L.state.WellFormed := by
    rw [show L = (ofState (State.load stored)).play p from opening_run stored p]
    exact wellFormed_play (State.wellFormed_load stored) p
  refine ⟨b, L, rfl, ⟨hbooked, rfl, ?_, hfollows, ?_, ?_⟩, Nat.lt_of_lt_of_le (L₁.below b hb) hfollows.issued, ?_⟩
  · rw [hleft]
    exact mem_commands_iff p.tick _ hb
  · intro plays
    rw [← hstate]
    exact (storedAfter_toStored hw plays).1
  · intro plays q
    obtain ⟨hstored, hafter⟩ := storedAfter_toStored hw plays
    rw [← hstate, hstored, (run_toStored hafter q).1, commands_play]
  · intro a ha ht
    exact eq_of_ticket (hfollows.mem (ht ▸ L₁.below b hb) ha) hb ht

/-- What becomes of a booking is never in doubt: at the start of every later turn it is there, or it was promoted
in the first turn in which it was due, or it was cancelled. -/
def Accounted (L : Ledger) (b : Booking) : Prop :=
  ∀ plays : List Play, b ∈ (L.after plays).reload.bookings ∨
    (∃ before p rest, plays = before ++ p :: rest ∧ b ∈ (L.after before).reload.due p.tick ∧
      ∀ q ∈ before, ¬b.write.isDue q.tick = true) ∨
    ∃ before p rest, plays = before ++ p :: rest ∧ (L.after before).CancelsIn p b

theorem accounted_of_legible (hb : b ∈ L.bookings) (hl : b.write.target.Legible) : L.Accounted b := by
  intro plays
  -- the first turn promotes the booking, or cancels it, or hands it on to the others
  induction plays generalizing L with
  | nil => exact Or.inl (mem_reload_iff.mpr ⟨hb, hl⟩)
  | cons p plays ih =>
    by_cases hd : b.write.isDue p.tick = true
    · have hdue : b ∈ (L.after []).reload.due p.tick := mem_due_iff.mpr ⟨mem_reload_iff.mpr ⟨hb, hl⟩, hd⟩
      exact Or.inr (Or.inl ⟨[], p, plays, rfl, hdue, by simp⟩)
    by_cases hc : L.CancelsIn p b
    · exact Or.inr (Or.inr ⟨[], p, plays, rfl, hc⟩)
    rcases ih ((mem_next_iff hb hl).mpr ⟨hd, hc⟩) with hstart | ⟨before, q, rest, rfl, hdue, hnot⟩ |
      ⟨before, q, rest, rfl, hcancels⟩
    · exact Or.inl hstart
    · refine Or.inr (Or.inl ⟨p :: before, q, rest, rfl, hdue, ?_⟩)
      exact List.forall_mem_cons.mpr ⟨hd, hnot⟩
    · exact Or.inr (Or.inr ⟨p :: before, q, rest, rfl, hcancels⟩)

theorem accounted_iff (hb : b ∈ L.bookings) : L.Accounted b ↔ b.write.target.Legible := by
  constructor
  · intro h
    rcases h [] with hstart | ⟨before, p, rest, hplays, -⟩ | ⟨before, p, rest, hplays, -⟩
    · exact (mem_reload_iff.mp hstart).2
    · exact absurd hplays (by simp)
    · exact absurd hplays (by simp)
  · exact accounted_of_legible hb

/-- A write that an applied command schedules for a round `n` rounds away is in every state that is stored then,
unchanged and in its place, until a command cancels it or a turn has that round. The first such turn begins with
it, once, and no turn does before or after. -/
theorem round_fires_once (stored : Json) (p : Play) (before rest : Report) (path reason time : String) (value : Json)
    (n : Int) (h : (p.run stored).1 = before ++ (.timedSet path value reason false time, .applied) :: rest)
    (hn : Text.signedWord? (Text.trim time.toList) = some n) (hl : -twoTo 63 ≤ p.tick.round + n)
    (hu : p.tick.round + n < twoTo 63) :
    ∃ q b L, Path.ofString path = .ok q ∧ b.write = ⟨q.text, value, .round (p.tick.round + n), reason⟩ ∧
      Books stored p before (.timedSet path value reason false time) rest b L ∧ L.FiresOnce b ∧
      ∀ tick, b.write.isDue tick = true ↔ p.tick.round + n ≤ tick.round := by
  obtain ⟨q, target, hq, htarget, hw⟩ := State.scheduled_of_applied (State.outcome_apply h)
  obtain rfl : target = .round (p.tick.round + n) := by
    simp only [State.scheduleTarget, hn, Bool.false_eq_true, if_false, Option.map_some, Option.elim_some,
      Except.ok.injEq] at htarget
    rw [← htarget, saturate_eq_self hl hu]
  obtain ⟨b, L, hb, hbooks, ht, honly⟩ := exists_books h hw
  have hlegible : b.write.target.Legible := by
    rw [hb]
    trivial
  have hdue (tick : Tick) : b.write.isDue tick = true ↔ p.tick.round + n ≤ tick.round := by
    simp [hb, ScheduledWrite.isDue, Target.isDue]
  exact ⟨q, b, L, hq, hb, hbooks, firesOnce ht hlegible honly, hdue⟩

/-- Whether an entry of a report tells that a text has been scheduled. -/
def schedules (path value reason : String) (gameTime : Bool) (time : String) : Command × CommandOutcome → Bool
  | (.timedSet p (.str v) r g t, .applied) => p = path && v = value && r = reason && g = gameTime && t = time
  | _ => false

theorem eq_of_schedules {path value reason time : String} {gameTime : Bool} {entry : Command × CommandOutcome}
    (h : schedules path value reason gameTime time entry = true) :
    entry = (.timedSet path (.str value) reason gameTime time, .applied) := by
  unfold schedules at h
  split at h
  · simp only [Bool.and_eq_true, decide_eq_true_eq] at h
    obtain ⟨⟨⟨⟨rfl, rfl⟩, rfl⟩, rfl⟩, rfl⟩ := h
    rfl
  · exact absurd h Bool.false_ne_true

theorem eq_replicate_of_schedules {path value reason time : String} {gameTime : Bool} {report : Report} {k : Nat}
    (h : (report.length == k && report.all (schedules path value reason gameTime time)) = true) :
    report = List.replicate k (.timedSet path (.str value) reason gameTime time, .applied) := by
  obtain ⟨hlength, hall⟩ := Bool.and_eq_true_iff.mp h
  exact List.eq_replicate_iff.mpr ⟨by simpa using hlength, fun entry hentry =>
    eq_of_schedules (List.all_eq_true.mp hall entry hentry)⟩

theorem ofString_door : Path.ofString "door" = .ok ⟨"door", .key "door", []⟩ := rfl

/-- Two equal writes are scheduled in round 3 for round 5. -/
def bells : Play :=
  ⟨⟨3, ⟨0, 0⟩⟩, "<TIMED_SET :: door :: open :: bell :: false :: 2> <TIMED_SET :: door :: open :: bell :: false :: 2>"⟩

theorem run_bells : (bells.run (.obj [])).1 =
    List.replicate 2 (.timedSet "door" (.str "open") "bell" false "2", .applied) :=
  eq_replicate_of_schedules (by decide +kernel)

theorem round_fires_once_bells : ∃ b L, b.write = ⟨"door", .str "open", .round 5, "bell"⟩ ∧
    Books (.obj []) bells [(.timedSet "door" (.str "open") "bell" false "2", .applied)]
      (.timedSet "door" (.str "open") "bell" false "2") [] b L ∧
    b ∈ L.bookings ∧ L.FiresOnce b ∧ ∀ tick, b.write.isDue tick = true ↔ 5 ≤ tick.round := by
  obtain ⟨q, b, L, hq, hb, hbooks, hfires, hdue⟩ := round_fires_once (.obj []) bells
    [(.timedSet "door" (.str "open") "bell" false "2", .applied)] [] "door" "bell" "2" (.str "open") 2 run_bells
    (by decide +kernel) (by decide) (by decide)
  obtain rfl := Except.ok.inj (ofString_door.symm.trans hq)
  exact ⟨b, L, hb, hbooks, hbooks.kept.mpr (not_cancels_nil _ _ b), hfires, hdue⟩

/-- A write that an applied command schedules for an instant, and that its own turn does not cancel, is accounted
for at the start of every later turn exactly if the instant can be read back, and that is if its year in UTC has
four digits; then it fires once. -/
theorem game_time_accounted_iff (stored : Json) (p : Play) (before rest : Report) (path reason time : String)
    (value : Json) (h : (p.run stored).1 = before ++ (.timedSet path value reason true time, .applied) :: rest) :
    ∃ q t b L, Path.ofString path = .ok q ∧ Instant.ofText? time = some t ∧
      b.write = ⟨q.text, value, .gameTime t, reason⟩ ∧
      Books stored p before (.timedSet path value reason true time) rest b L ∧
      (∀ tick, b.write.isDue tick = true ↔ t ≤ tick.now) ∧
      (b ∈ L.bookings → (L.Accounted b ↔ Instant.ofText? (.ofList t.render) = some t)) ∧
      (Instant.ofText? (.ofList t.render) = some t ↔ 0 ≤ t.toCivil.date.year ∧ t.toCivil.date.year ≤ 9999) ∧
      (0 ≤ t.toCivil.date.year ∧ t.toCivil.date.year ≤ 9999 → L.FiresOnce b) := by
  obtain ⟨q, target, hq, htarget, hw⟩ := State.scheduled_of_applied (State.outcome_apply h)
  obtain ⟨t, htime, rfl⟩ : ∃ t, Instant.ofText? time = some t ∧ target = .gameTime t := by
    unfold State.scheduleTarget at htarget
    cases htime : Instant.ofText? time with
    | none => exact absurd htarget (by simp [htime])
    | some t =>
      rw [htime] at htarget
      exact ⟨t, rfl, (Except.ok.inj htarget).symm⟩
  obtain ⟨b, L, hb, hbooks, ht, honly⟩ := exists_books h hw
  have hdue (tick : Tick) : b.write.isDue tick = true ↔ t ≤ tick.now := by
    simp [hb, ScheduledWrite.isDue, Target.isDue]
  have hback := Instant.ofText?_render_iff htime
  have hlegible : b.write.target.Legible ↔ 0 ≤ t.toCivil.date.year ∧ t.toCivil.date.year ≤ 9999 := by
    rw [hb]
    rfl
  refine ⟨q, t, b, L, hq, htime, hb, hbooks, hdue, ?_, hback, ?_⟩
  · intro hmem
    rw [accounted_iff hmem, hlegible, hback]
  · intro hyear
    exact firesOnce ht (hlegible.mpr hyear) honly

/-- A write is scheduled for an instant that is written with an offset. -/
def dawn : Play := ⟨⟨3, ⟨0, 0⟩⟩, "<TIMED_SET :: door :: open :: dawn :: true :: 2024-05-01T09:00:00+02:00>"⟩

theorem game_time_accounted_dawn : ∃ b L, b.write = ⟨"door", .str "open", .gameTime ⟨1714546800, 0⟩, "dawn"⟩ ∧
    Books (.obj []) dawn [] (.timedSet "door" (.str "open") "dawn" true "2024-05-01T09:00:00+02:00") [] b L ∧
    L.Accounted b ∧ L.FiresOnce b := by
  have hrun : (dawn.run (.obj [])).1 =
      List.replicate 1 (.timedSet "door" (.str "open") "dawn" true "2024-05-01T09:00:00+02:00", .applied) :=
    eq_replicate_of_schedules (by decide +kernel)
  have htime : Instant.ofText? "2024-05-01T09:00:00+02:00" = some ⟨1714546800, 0⟩ := by decide +kernel
  obtain ⟨q, t, b, L, hq, ht, hb, hbooks, -, haccounted, hback, hfires⟩ := game_time_accounted_iff (.obj []) dawn [] []
    "door" "dawn" "2024-05-01T09:00:00+02:00" (.str "open") hrun
  obtain rfl := Except.ok.inj (ofString_door.symm.trans hq)
  obtain rfl := Option.some.inj (htime.symm.trans ht)
  have hyear : 0 ≤ (Instant.toCivil ⟨1714546800, 0⟩).date.year ∧ (Instant.toCivil ⟨1714546800, 0⟩).date.year ≤ 9999 := by
    decide +kernel
  have hmem : b ∈ L.bookings := hbooks.kept.mpr (not_cancels_nil _ _ b)
  exact ⟨b, L, hb, hbooks, (haccounted hmem).mpr (hback.mpr hyear), hfires hyear⟩

/-- A write is scheduled for the last night of the year 9999, when the next year has begun in UTC. -/
def lastNight : Play :=
  ⟨⟨3, ⟨0, 0⟩⟩, "<TIMED_SET :: door :: open :: dawn :: true :: 9999-12-31T23:30:00-01:00>"⟩

/-- The year 10000 is not read back, so a write that was scheduled for it is lost in the next turn. -/
theorem game_time_lost_lastNight :
    (lastNight.run (.obj [])).1 =
        [(.timedSet "door" (.str "open") "dawn" true "9999-12-31T23:30:00-01:00", .applied)] ∧
      (∃ t, Instant.ofText? "9999-12-31T23:30:00-01:00" = some t ∧ Instant.ofText? (.ofList t.render) = none) ∧
      ∃ b L, b.write = ⟨"door", .str "open", .gameTime ⟨253402302600, 0⟩, "dawn"⟩ ∧
        Books (.obj []) lastNight [] (.timedSet "door" (.str "open") "dawn" true "9999-12-31T23:30:00-01:00") [] b L ∧
        b ∈ L.bookings ∧ ¬L.Accounted b := by
  have hrun : (lastNight.run (.obj [])).1 =
      List.replicate 1 (.timedSet "door" (.str "open") "dawn" true "9999-12-31T23:30:00-01:00", .applied) :=
    eq_replicate_of_schedules (by decide +kernel)
  have hpath : State.parsePath "door" = .ok ⟨"door", .key "door", []⟩ := by
    rw [State.parsePath, ofString_door]
    rfl
  have htime : Instant.ofText? "9999-12-31T23:30:00-01:00" = some ⟨253402302600, 0⟩ := by decide +kernel
  have hscheduled : (Command.timedSet "door" (.str "open") "dawn" true "9999-12-31T23:30:00-01:00").scheduled?
      lastNight.tick = some ⟨"door", .str "open", .gameTime ⟨253402302600, 0⟩, "dawn"⟩ := by
    simp [Command.scheduled?, State.scheduleTarget, hpath, htime]
  have hreport : (lastNight.run (.obj [])).1 =
      [] ++ (.timedSet "door" (.str "open") "dawn" true "9999-12-31T23:30:00-01:00", .applied) :: [] := hrun
  obtain ⟨b, L, hb, hbooks, -⟩ := exists_books hreport hscheduled
  have hmem : b ∈ L.bookings := hbooks.kept.mpr (not_cancels_nil _ _ b)
  have hyear : ¬b.write.target.Legible := by
    rw [hb]
    decide +kernel
  refine ⟨hrun, ⟨_, htime, by decide +kernel⟩, b, L, hb, hbooks, hmem, ?_⟩
  rw [accounted_iff hmem]
  exact hyear

end Ledger

end Chronicle
