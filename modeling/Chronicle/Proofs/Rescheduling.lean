import Chronicle.Proofs.LongYears
import Chronicle.Proofs.StateInvariants

/-!
# Turns and the schedule

What a turn does to the schedule of a state: it loads the writes that can be read, takes out the due ones, and lets
each of its commands cancel some or put a new one at the end. The steps on schedules are stated for lists of any
items that stand for writes.
-/

namespace Chronicle

theorem Target.ofJson_toJson_of_not_legible {t : Target} (h : ¬t.Legible) :
    ∃ e, Target.ofJson t.isGameTime t.toJson = .error e := by
  cases t with
  | round n => exact absurd trivial h
  | gameTime t =>
    have ht : Instant.ofText? (.ofList t.render) = none := Instant.ofText?_render_eq_none h
    exact ⟨.invalidTime (.ofList t.render), by simp [isGameTime, toJson, ofJson, ht]⟩

theorem ScheduledWrite.toOption_ofJson_toJson {w : ScheduledWrite} (h : w.WellFormed) :
    (ScheduledWrite.ofJson w.toJson).toOption = if w.target.Legible then some w else none := by
  by_cases hy : w.target.Legible
  · rw [ScheduledWrite.ofJson_toJson h.target hy, if_pos hy]
    rfl
  · obtain ⟨e, he⟩ := Target.ofJson_toJson_of_not_legible hy
    rw [if_neg hy, ScheduledWrite.toJson, ScheduledWrite.ofJson, ofItems, he]
    rfl

namespace State

/-- The state with which a turn starts. -/
def load (stored : Json) : State := (ofStored? stored).getD .initial

theorem wellFormed_load (stored : Json) : (load stored).WellFormed := wellFormed_stored stored

theorem scheduleOf_toJson_eq_filter {schedule : List ScheduledWrite} (h : ∀ w ∈ schedule, w.WellFormed) :
    scheduleOf (.arr (schedule.map (·.toJson))) = schedule.filter fun w => w.target.Legible := by
  rw [scheduleOf, List.filterMap_map]
  induction schedule with
  | nil => rfl
  | cons w schedule ih =>
    have hw := ScheduledWrite.toOption_ofJson_toJson (h w List.mem_cons_self)
    rw [List.filterMap_cons, ih fun v hv => h v (List.mem_cons_of_mem w hv), Function.comp, hw, List.filter_cons]
    by_cases hy : w.target.Legible
    · simp [hy]
    · simp [hy]

/-- A well-formed state that has been stored is loaded again, except for the scheduled writes whose instants cannot
be read back. -/
theorem load_toStored {s : State} (h : s.WellFormed) :
    load s.toStored = { s with schedule := s.schedule.filter fun w => w.target.Legible } := by
  rw [load, ofStored?_of_scheduleOf h (scheduleOf_toJson_eq_filter h.schedule)]
  rfl

end State

namespace Command

/-- The items of a schedule that are left when one of them is cancelled by its position, or else all that an
identifier names. -/
def uncancelled (write : α → ScheduledWrite) (identifier : String) (items : List α) : List α :=
  match (Text.word? 10 identifier.toList).filter (· < items.length) with
  | some i => items.eraseIdx i
  | none => items.filter fun a => !(write a).matchesId identifier

/-- The write that a command schedules, if it is one that does. -/
def scheduled? (tick : Tick) : Command → Option ScheduledWrite
  | timedSet path value reason gameTime time =>
    match State.parsePath path, State.scheduleTarget tick gameTime time with
    | .ok p, .ok target => some ⟨p.text, value, target, reason⟩
    | _, _ => none
  | _ => none

/-- What a command does to a schedule: it cancels items, or it may put a new one at the end. -/
def reschedule (write : α → ScheduledWrite) (make : ScheduledWrite → α) (tick : Tick) (items : List α) :
    Command → List α
  | cancelSet identifier => uncancelled write identifier items
  | c => items ++ (c.scheduled? tick).toList.map make

variable {write : α → ScheduledWrite} {make : ScheduledWrite → α} {tick : Tick}

theorem uncancelled_sublist (write : α → ScheduledWrite) (identifier : String) (items : List α) :
    (uncancelled write identifier items).Sublist items := by
  unfold uncancelled
  split
  · exact List.eraseIdx_sublist _ _
  · exact List.filter_sublist

theorem map_uncancelled (write : α → ScheduledWrite) (identifier : String) (items : List α) :
    (uncancelled write identifier items).map write = uncancelled id identifier (items.map write) := by
  unfold uncancelled
  rw [List.length_map]
  split
  · simp only [List.eraseIdx_eq_take_drop_succ, List.map_append, List.map_take, List.map_drop]
  · rw [List.filter_map]
    rfl

theorem reschedule_cases (c : Command) (items : List α) : (c.reschedule write make tick items).Sublist items ∨
    ∃ w, c.reschedule write make tick items = items ++ [make w] := by
  have hmade (made : Option ScheduledWrite) : (items ++ made.toList.map make).Sublist items ∨
      ∃ w, items ++ made.toList.map make = items ++ [make w] := by
    cases made with
    | none => exact Or.inl (by simp)
    | some w => exact Or.inr ⟨w, rfl⟩
  cases c with
  | cancelSet identifier => exact Or.inl (uncancelled_sublist write identifier items)
  | set | add | timedSet | responseSummary => exact hmade _

theorem reschedule_of_scheduled {c : Command} {w : ScheduledWrite} (h : c.scheduled? tick = some w) (items : List α) :
    c.reschedule write make tick items = items ++ [make w] := by
  cases c with
  | timedSet => simp [reschedule, h]
  | set | add | responseSummary | cancelSet => exact absurd h (by simp [scheduled?])

theorem map_reschedule (hm : ∀ w, write (make w) = w) (c : Command) (items : List α) :
    (c.reschedule write make tick items).map write = c.reschedule id id tick (items.map write) := by
  have hmade (made : Option ScheduledWrite) : (made.toList.map make).map write = made.toList.map id := by
    cases made <;> simp [hm]
  cases c with
  | cancelSet identifier => exact map_uncancelled write identifier items
  | set | add | timedSet | responseSummary =>
    simp only [reschedule, List.map_append, hmade]

end Command

namespace State
open Command

variable {tick : Tick} {s s' : State} {outcome : CommandOutcome}

theorem schedule_setVar {p : Path} {value : Json} (h : s.setVar p value = .ok (outcome, s')) :
    s'.schedule = s.schedule := by
  obtain ⟨vars, -, h⟩ := exists_of_bind_ok h
  rw [← (Prod.mk.inj (Except.ok.inj h)).2]

theorem schedule_addAt {p : Path} {delta : String} (h : s.addAt p delta = .ok (outcome, s')) :
    s'.schedule = s.schedule := by
  unfold addAt at h
  split at h
  · rw [← (Prod.mk.inj (Except.ok.inj h)).2]
  · split at h
    · rw [← (Prod.mk.inj (Except.ok.inj h)).2]
    · rw [← (Prod.mk.inj (Except.ok.inj h)).2]
    · split at h
      · exact schedule_setVar h
      · exact absurd h (throw_ne_ok _ _)

theorem schedule_cancel (s : State) (identifier : String) :
    (s.cancel identifier).2.schedule = uncancelled id identifier s.schedule := by
  have hnone (h : s.schedule.any (·.matchesId identifier) = false) :
      s.schedule.filter (fun w => !w.matchesId identifier) = s.schedule := by
    rw [List.filter_eq_self]
    intro w hw
    simpa using List.any_eq_false.mp h w hw
  unfold cancel uncancelled
  by_cases he : s.schedule.isEmpty = true
  · rw [if_pos he, List.isEmpty_iff.mp he]
    cases Text.word? 10 identifier.toList <;> rfl
  · rw [if_neg he]
    cases (Text.word? 10 identifier.toList).filter (· < s.schedule.length) with
    | some i => rfl
    | none =>
      cases ha : s.schedule.any (·.matchesId identifier) with
      | true => rfl
      | false => exact (hnone ha).symm

theorem execute_timedSet (tick : Tick) (s : State) (path : String) (value : Json) (reason : String) (gameTime : Bool)
    (time : String) : (∃ e, s.execute tick (.timedSet path value reason gameTime time) = .error e ∧
        (timedSet path value reason gameTime time).scheduled? tick = none) ∨
      ∃ w, s.execute tick (.timedSet path value reason gameTime time) =
          .ok (.applied, { s with schedule := s.schedule ++ [w] }) ∧
        (timedSet path value reason gameTime time).scheduled? tick = some w := by
  simp only [execute, scheduled?]
  cases parsePath path with
  | error e => exact Or.inl ⟨e, rfl, rfl⟩
  | ok p =>
    cases scheduleTarget tick gameTime time with
    | error e => exact Or.inl ⟨e, rfl, rfl⟩
    | ok target => exact Or.inr ⟨_, rfl, rfl⟩

/-- What applying a command does to the schedule. -/
theorem schedule_applyOne (tick : Tick) (s : State) (c : Command) :
    (s.applyOne tick c).2.schedule = c.reschedule id id tick s.schedule := by
  have hkept (h : ∀ outcome s', s.execute tick c = .ok (outcome, s') → s'.schedule = s.schedule) :
      (s.applyOne tick c).2.schedule = s.schedule := by
    unfold applyOne
    split
    · next result hr => exact h result.1 result.2 hr
    · rfl
  cases c with
  | set path value =>
    refine (hkept fun outcome s' h => ?_).trans (List.append_nil _).symm
    obtain ⟨p, -, h⟩ := exists_of_bind_ok h
    exact schedule_setVar h
  | add path delta =>
    refine (hkept fun outcome s' h => ?_).trans (List.append_nil _).symm
    obtain ⟨p, -, h⟩ := exists_of_bind_ok h
    exact schedule_addAt h
  | responseSummary text =>
    refine (hkept fun outcome s' h => ?_).trans (List.append_nil _).symm
    rw [← (Prod.mk.inj (Except.ok.inj h)).2]
  | cancelSet identifier => exact schedule_cancel s identifier
  | timedSet path value reason gameTime time =>
    have hbook : (timedSet path value reason gameTime time).reschedule id id tick s.schedule = s.schedule ++
        ((timedSet path value reason gameTime time).scheduled? tick).toList.map id := rfl
    rw [applyOne, hbook]
    rcases execute_timedSet tick s path value reason gameTime time with ⟨e, he, hs⟩ | ⟨w, he, hs⟩
    · rw [he, hs]
      exact (List.append_nil _).symm
    · rw [he, hs]
      rfl

theorem commands_apply (tick : Tick) (s : State) (cs : List Command) : (s.apply tick cs).1.map (·.1) = cs := by
  induction cs generalizing s with
  | nil => rfl
  | cons c cs ih => rw [apply, List.map_cons, ih]

end State

/-- A turn in the life of a chat: when it is taken, and the text of its message. -/
structure Play where
  tick : Tick
  text : String

namespace Play

/-- The commands of a turn: those of the due writes, and then those of the text. -/
def commands (p : Play) (s : State) : List Command := (s.promoteDue p.tick).1 ++ Command.parseAll p.text

/-- Takes a turn on a stored state: what it reports, and the state that it stores. -/
def run (p : Play) (stored : Json) : Report × Json :=
  let s := State.load stored
  let (report, s') := (s.promoteDue p.tick).2.apply p.tick (p.commands s)
  (report, s'.toStored)

def storedAfter (plays : List Play) (stored : Json) : Json := plays.foldl (fun v p => (p.run v).2) stored

end Play

/-- The turn of the controller is a turn on the text of the message without its blocks. -/
theorem Turn.take_load (options : Options) (tick : Tick) (stored : Json) (text : String) :
    ((Turn.take options tick (State.load stored) text).report,
      (Turn.take options tick (State.load stored) text).state.toStored) = Play.run ⟨tick, Block.strip text⟩ stored := rfl

end Chronicle
