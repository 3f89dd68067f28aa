import Chronicle.Command.Outcome
import Chronicle.Path.Access
import Chronicle.State.Basic

/-!
# Applying commands to a state

`State.apply` applies a batch of commands in order. A command that is skipped or fails leaves the
state as it is, and the batch goes on. `State.promoteDue` takes the due writes out of the schedule
and turns them into commands.
-/

namespace Chronicle.State

/-- The result of one command: an outcome other than failure, and the new state. -/
abbrev Step := Except CommandError (CommandOutcome × State)

def parsePath (text : String) : Except CommandError Path := (Path.ofString text).mapError .path

def setVar (s : State) (p : Path) (value : Json) : Step := do
  let vars ← (p.set value s.vars).mapError .path
  return (.applied, { s with vars })

/-- Appends to an array, or adds to a number; a missing value counts as zero. -/
def addAt (s : State) (p : Path) (delta : String) : Step :=
  match p.get? s.vars with
  | some (.arr items) =>
    return (.applied, { s with vars := (p.replace? (.arr (items ++ [.str delta])) s.vars).getD s.vars })
  | current =>
    match current.elim (some (.zero false)) Json.reading?, Binary64.ofText? delta with
    | none, _ => return (.skipped (.valueNotNumeric p.text), s)
    | some _, none => return (.skipped (.deltaNotNumeric delta), s)
    | some x, some y =>
      match x.add y with
      | .finite sum => s.setVar p (.num (.ofBinary64 sum))
      | .overflow neg => throw (.notFinite (if neg then "-inf" else "inf"))

/-- The target of a write that is scheduled now: an instant, or a number of rounds from now on. -/
def scheduleTarget (tick : Tick) (gameTime : Bool) (time : String) : Except CommandError Target :=
  let target? := if gameTime then (Instant.ofText? time).map Target.gameTime
    else (Text.signedWord? (Text.trim time.toList)).map fun n => .round (saturate (tick.round + n))
  target?.elim (.error (.invalidTime time)) .ok

/-- Drops the scheduled write at a position of the schedule, or else all that the identifier names. -/
def cancel (s : State) (identifier : String) : CommandOutcome × State :=
  if s.schedule.isEmpty then (.skipped .nothingScheduled, s)
  else
    match (Text.word? 10 identifier.toList).filter (· < s.schedule.length) with
    | some i => (.applied, { s with schedule := s.schedule.eraseIdx i })
    | none =>
      if s.schedule.any (·.matchesId identifier) then
        (.applied, { s with schedule := s.schedule.filter fun w => !w.matchesId identifier })
      else (.skipped (.noMatch identifier), s)

def execute (tick : Tick) (s : State) : Command → Step
  | .set path value => do s.setVar (← parsePath path) value
  | .add path delta => do s.addAt (← parsePath path) delta
  | .timedSet path value reason gameTime time => do
    let p ← parsePath path
    let target ← scheduleTarget tick gameTime time
    return (.applied, { s with schedule := s.schedule ++ [⟨p.text, value, target, reason⟩] })
  | .responseSummary text => return (.applied, { s with summaries := s.summaries ++ [text] })
  | .cancelSet identifier => return s.cancel identifier

/-- Applies one command. A failed command changes nothing. -/
def applyOne (tick : Tick) (s : State) (c : Command) : CommandOutcome × State :=
  match s.execute tick c with
  | .ok result => result
  | .error e => (.failed e, s)

def apply (tick : Tick) (s : State) : List Command → Report × State
  | [] => ([], s)
  | c :: rest =>
    let (outcome, s) := s.applyOne tick c
    let (report, s) := apply tick s rest
    ((c, outcome) :: report, s)

/-- The due writes of the schedule as commands, in their order, and the state without them. -/
def promoteDue (tick : Tick) (s : State) : List Command × State :=
  ((s.schedule.filter (·.isDue tick)).map fun w => .set w.name w.value,
    { s with schedule := s.schedule.filter fun w => !w.isDue tick })

end Chronicle.State
