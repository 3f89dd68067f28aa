import Chronicle.Proofs.Rescheduling

/-!
# The ledger of scheduled writes

Equal writes may stand in a schedule more than once, so a ledger gives every write a ticket when it is scheduled.
The ledger goes through the same steps as the state whose schedule it is, and no ticket is given out twice.
-/

namespace Chronicle

structure Booking where
  ticket : Nat
  write : ScheduledWrite

def Booking.toCommand (b : Booking) : Command := .set b.write.name b.write.value

/-- A state with a ticket for each of its scheduled writes. Tickets ascend, and those below `issued` are not
given out again. -/
structure Ledger where
  state : State
  bookings : List Booking
  issued : Nat
  writes : bookings.map (·.write) = state.schedule
  ascending : (bookings.map (·.ticket)).Pairwise (· < ·)
  below : ∀ b ∈ bookings, b.ticket < issued

namespace Ledger

/-- Gives the writes of a state the tickets 0, 1, 2 and so on. -/
def ofState (s : State) : Ledger where
  state := s
  bookings := s.schedule.zipIdx.map fun (w, i) => ⟨i, w⟩
  issued := s.schedule.length
  writes := by
    rw [List.map_map]
    exact List.zipIdx_map_fst 0 s.schedule
  ascending := by
    rw [List.map_map]
    have hfst : s.schedule.zipIdx.map Prod.snd = List.range' 0 s.schedule.length := List.zipIdx_map_snd 0 s.schedule
    exact hfst ▸ List.pairwise_lt_range' 1
  below := by
    intro b hb
    obtain ⟨⟨w, i⟩, hm, rfl⟩ := List.mem_map.mp hb
    exact (List.getElem?_eq_some_iff.mp (List.mem_zipIdx_iff_getElem?.mp hm)).1

/-- The ledger with some of its bookings. -/
def retain (L : Ledger) (kept : List Booking) (h : kept.Sublist L.bookings) : Ledger where
  state := { L.state with schedule := kept.map (·.write) }
  bookings := kept
  issued := L.issued
  writes := rfl
  ascending := L.ascending.sublist (h.map _)
  below b hb := L.below b (h.subset hb)

/-- The bookings whose writes are due. -/
def due (L : Ledger) (tick : Tick) : List Booking := L.bookings.filter (·.write.isDue tick)

def promote (L : Ledger) (tick : Tick) : Ledger :=
  L.retain (L.bookings.filter fun b => !b.write.isDue tick) List.filter_sublist

/-- The ledger after its state has been stored and loaded again. -/
def reload (L : Ledger) : Ledger :=
  L.retain (L.bookings.filter fun b => b.write.target.Legible) List.filter_sublist

/-- Applies a command. What it schedules gets the next ticket. -/
def command (tick : Tick) (L : Ledger) (c : Command) : Ledger where
  state := (L.state.applyOne tick c).2
  bookings := c.reschedule (·.write) (⟨L.issued, ·⟩) tick L.bookings
  issued := L.issued + 1
  writes := by rw [Command.map_reschedule fun _ => rfl, L.writes, State.schedule_applyOne]
  ascending := by
    rcases c.reschedule_cases L.bookings with h | ⟨w, h⟩
    · exact L.ascending.sublist (h.map _)
    · rw [h, List.map_append, List.pairwise_append]
      refine ⟨L.ascending, List.pairwise_singleton _ _, ?_⟩
      simpa using L.below
  below := by
    intro b hb
    rcases c.reschedule_cases L.bookings with h | ⟨w, h⟩
    · exact Nat.lt_succ_of_lt (L.below b (h.subset hb))
    · rw [h] at hb
      rcases List.mem_append.mp hb with hb | hb
      · exact Nat.lt_succ_of_lt (L.below b hb)
      · rw [List.mem_singleton.mp hb]
        exact Nat.lt_succ_self _

def commands (tick : Tick) (L : Ledger) (cs : List Command) : Ledger := cs.foldl (command tick) L

/-- Takes a turn on a loaded ledger. -/
def play (L : Ledger) (p : Play) : Ledger := (L.promote p.tick).commands p.tick (p.commands L.state)

/-- Takes a turn on a stored ledger. -/
def next (L : Ledger) (p : Play) : Ledger := L.reload.play p

def after (L : Ledger) (plays : List Play) : Ledger := plays.foldl next L

variable {L L' L'' : Ledger} {b : Booking} {tick : Tick}

theorem map_filter (L : Ledger) (q : ScheduledWrite → Bool) :
    (L.bookings.filter fun b => q b.write).map (·.write) = L.state.schedule.filter q := by
  rw [← L.writes, List.filter_map]
  rfl

theorem commands_play (L : Ledger) (p : Play) :
    p.commands L.state = (L.due p.tick).map Booking.toCommand ++ Command.parseAll p.text := by
  rw [Play.commands, State.promoteDue, ← L.map_filter (·.isDue p.tick), List.map_map]
  rfl

theorem state_promote (L : Ledger) (tick : Tick) : (L.promote tick).state = (L.state.promoteDue tick).2 := by
  rw [State.promoteDue, ← L.map_filter fun w => !w.isDue tick]
  rfl

theorem state_reload (h : L.state.WellFormed) : L.reload.state = State.load L.state.toStored := by
  rw [State.load_toStored h, ← L.map_filter fun w => w.target.Legible]
  rfl

theorem state_commands (tick : Tick) (L : Ledger) (cs : List Command) :
    (L.commands tick cs).state = (L.state.apply tick cs).2 := by
  induction cs generalizing L with
  | nil => rfl
  | cons c cs ih => exact ih (L.command tick c)

theorem state_play (L : Ledger) (p : Play) :
    (L.play p).state = ((L.state.promoteDue p.tick).2.apply p.tick (p.commands L.state)).2 := by
  rw [play, state_commands, state_promote]

theorem wellFormed_play (h : L.state.WellFormed) (p : Play) : (L.play p).state.WellFormed := by
  rw [state_play]
  exact State.wellFormed_turn p.tick h p.text

theorem wellFormed_next (h : L.state.WellFormed) (p : Play) : (L.next p).state.WellFormed := by
  apply wellFormed_play
  rw [state_reload h]
  exact State.wellFormed_load _

/-- A turn on what a ledger has stored stores what the next ledger has. -/
theorem run_toStored (h : L.state.WellFormed) (p : Play) :
    (p.run L.state.toStored).1.map (·.1) = p.commands L.reload.state ∧
      (p.run L.state.toStored).2 = (L.next p).state.toStored := by
  rw [Play.run, ← state_reload h, next, state_play]
  exact ⟨State.commands_apply _ _ _, rfl⟩

theorem storedAfter_toStored (h : L.state.WellFormed) (plays : List Play) :
    Play.storedAfter plays L.state.toStored = (L.after plays).state.toStored ∧ (L.after plays).state.WellFormed := by
  induction plays generalizing L with
  | nil => exact ⟨rfl, h⟩
  | cons p plays ih =>
    have hnext := ih (wellFormed_next h p)
    rwa [← (run_toStored h p).2] at hnext

/-- `L'` comes after `L`: of the tickets that `L` has given out it holds only bookings of `L`, in their order. -/
structure Follows (L L' : Ledger) : Prop where
  issued : L.issued ≤ L'.issued
  bookings : (L'.bookings.filter fun b => b.ticket < L.issued).Sublist L.bookings

theorem Follows.refl (L : Ledger) : L.Follows L := ⟨Nat.le_refl _, List.filter_sublist⟩

theorem Follows.trans (h : L.Follows L') (h' : L'.Follows L'') : L.Follows L'' := by
  refine ⟨Nat.le_trans h.issued h'.issued, ?_⟩
  have hearly : (L''.bookings.filter fun b => b.ticket < L'.issued).filter (fun b => b.ticket < L.issued) =
      L''.bookings.filter fun b => b.ticket < L.issued := by
    rw [List.filter_filter]
    apply List.filter_congr
    intro b _
    have hissued := h.issued
    simp only [← Bool.decide_and, decide_eq_decide]
    omega
  rw [← hearly]
  exact (h'.bookings.filter _).trans h.bookings

theorem follows_retain (L : Ledger) {kept : List Booking} (h : kept.Sublist L.bookings) : L.Follows (L.retain kept h) :=
  ⟨Nat.le_refl _, List.filter_sublist.trans h⟩

theorem follows_command (tick : Tick) (L : Ledger) (c : Command) : L.Follows (L.command tick c) := by
  refine ⟨Nat.le_succ _, ?_⟩
  rcases c.reschedule_cases L.bookings with h | ⟨w, h⟩
  · exact List.filter_sublist.trans h
  · have hbookings : (L.command tick c).bookings = L.bookings ++ [⟨L.issued, w⟩] := h
    rw [hbookings, List.filter_append]
    simp

theorem follows_commands (tick : Tick) (L : Ledger) (cs : List Command) : L.Follows (L.commands tick cs) := by
  induction cs generalizing L with
  | nil => exact Follows.refl L
  | cons c cs ih => exact (follows_command tick L c).trans (ih _)

theorem follows_next (L : Ledger) (p : Play) : L.Follows (L.next p) :=
  (follows_retain L _).trans ((follows_retain L.reload _).trans (follows_commands _ _ _))

theorem follows_after (L : Ledger) (plays : List Play) : L.Follows (L.after plays) := by
  induction plays generalizing L with
  | nil => exact Follows.refl L
  | cons p plays ih => exact (follows_next L p).trans (ih _)

theorem Follows.mem (h : L.Follows L') (ht : b.ticket < L.issued) (hb : b ∈ L'.bookings) : b ∈ L.bookings :=
  h.bookings.subset (List.mem_filter.mpr ⟨hb, decide_eq_true ht⟩)

theorem filter_ticket {bookings : List Booking} (h : (bookings.map (·.ticket)).Pairwise (· < ·)) (hb : b ∈ bookings) :
    bookings.filter (·.ticket = b.ticket) = [b] := by
  induction bookings with
  | nil => exact absurd hb List.not_mem_nil
  | cons a bookings ih =>
    obtain ⟨hfirst, hrest⟩ := List.pairwise_cons.mp h
    have hlater : ∀ d ∈ bookings, a.ticket < d.ticket := fun d hd => hfirst _ (List.mem_map_of_mem hd)
    rcases List.mem_cons.mp hb with rfl | hb
    · have hnone : bookings.filter (·.ticket = b.ticket) = [] := by
        rw [List.filter_eq_nil_iff]
        intro d hd
        have hlt := hlater d hd
        simp only [decide_eq_true_eq]
        omega
      rw [List.filter_cons_of_pos (by simp), hnone]
    · have hlt := hlater b hb
      rw [List.filter_cons_of_neg (by simp only [decide_eq_true_eq]; omega), ih hrest hb]

theorem eq_of_ticket {a : Booking} (ha : a ∈ L.bookings) (hb : b ∈ L.bookings) (h : a.ticket = b.ticket) : a = b := by
  have hmem : a ∈ L.bookings.filter (·.ticket = b.ticket) := List.mem_filter.mpr ⟨ha, decide_eq_true h⟩
  rw [filter_ticket L.ascending hb] at hmem
  exact List.mem_singleton.mp hmem

/-- One of the commands cancels the booking. -/
def Cancels (tick : Tick) (L : Ledger) (cs : List Command) (b : Booking) : Prop :=
  ∃ before identifier rest, cs = before ++ .cancelSet identifier :: rest ∧ b ∈ (L.commands tick before).bookings ∧
    b ∉ (L.commands tick (before ++ [.cancelSet identifier])).bookings

theorem not_cancels_nil (tick : Tick) (L : Ledger) (b : Booking) : ¬Cancels tick L [] b := by
  rintro ⟨before, identifier, rest, hcs, -, -⟩
  exact absurd hcs (by simp)

theorem cancels_cons_iff {c : Command} {cs : List Command} (hc : b ∈ (L.command tick c).bookings) :
    Cancels tick L (c :: cs) b ↔ Cancels tick (L.command tick c) cs b := by
  constructor
  · rintro ⟨before, identifier, rest, hcs, hb, hgone⟩
    cases before with
    | nil =>
      obtain ⟨rfl, -⟩ := List.cons.inj hcs
      exact absurd hc hgone
    | cons d before =>
      obtain ⟨rfl, htail⟩ := List.cons.inj hcs
      exact ⟨before, identifier, rest, htail, hb, hgone⟩
  · rintro ⟨before, identifier, rest, rfl, hb, hgone⟩
    exact ⟨c :: before, identifier, rest, rfl, hb, hgone⟩

/-- Only the cancelling commands take bookings away. -/
theorem exists_cancelSet {c : Command} (hb : b ∈ L.bookings) (hc : b ∉ (L.command tick c).bookings) :
    ∃ identifier, c = .cancelSet identifier := by
  cases c with
  | cancelSet identifier => exact ⟨identifier, rfl⟩
  | set | add | timedSet | responseSummary => exact absurd (List.mem_append_left _ hb) hc

theorem mem_commands_iff (tick : Tick) (cs : List Command) (hb : b ∈ L.bookings) :
    b ∈ (L.commands tick cs).bookings ↔ ¬Cancels tick L cs b := by
  induction cs generalizing L with
  | nil => exact ⟨fun _ => not_cancels_nil tick L b, fun _ => hb⟩
  | cons c cs ih =>
    by_cases hc : b ∈ (L.command tick c).bookings
    · rw [cancels_cons_iff hc]
      exact ih hc
    · obtain ⟨identifier, rfl⟩ := exists_cancelSet hb hc
      have hcancels : Cancels tick L (.cancelSet identifier :: cs) b := ⟨[], identifier, cs, rfl, hb, hc⟩
      have hissued : b.ticket < (L.command tick (.cancelSet identifier)).issued := Nat.lt_succ_of_lt (L.below b hb)
      exact ⟨fun h => absurd ((follows_commands tick _ cs).mem hissued h) hc, fun h => absurd hcancels h⟩

/-- One of the commands of a turn cancels the booking. -/
def CancelsIn (L : Ledger) (p : Play) (b : Booking) : Prop :=
  Cancels p.tick (L.reload.promote p.tick) (p.commands L.reload.state) b

theorem mem_reload_iff : b ∈ L.reload.bookings ↔ b ∈ L.bookings ∧ b.write.target.Legible := by
  simp [reload, retain]

theorem mem_promote_iff : b ∈ (L.promote tick).bookings ↔ b ∈ L.bookings ∧ ¬b.write.isDue tick = true := by
  simp [promote, retain]

theorem mem_next_iff {p : Play} (hb : b ∈ L.bookings) (hl : b.write.target.Legible) :
    b ∈ (L.next p).bookings ↔ ¬b.write.isDue p.tick = true ∧ ¬L.CancelsIn p b := by
  have hloaded : b ∈ L.reload.bookings := mem_reload_iff.mpr ⟨hb, hl⟩
  by_cases hd : b.write.isDue p.tick = true
  · have hgone : b ∉ (L.reload.promote p.tick).bookings := fun h => (mem_promote_iff.mp h).2 hd
    have hnext : b ∉ (L.next p).bookings := fun h => hgone ((follows_commands _ _ _).mem (L.below b hb) h)
    exact ⟨fun h => absurd h hnext, fun h => absurd hd h.1⟩
  · have hkept : b ∈ (L.reload.promote p.tick).bookings := mem_promote_iff.mpr ⟨hloaded, hd⟩
    rw [next, play, mem_commands_iff p.tick _ hkept]
    exact ⟨fun h => ⟨hd, h⟩, fun h => h.2⟩

end Ledger

end Chronicle
