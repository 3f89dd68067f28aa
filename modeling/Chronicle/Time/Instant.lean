import Chronicle.Time.Date

/-!
# Instants

An instant is a count of seconds from the start of 1970 in UTC and a count of nanoseconds. In a leap
second the seconds stand still and the nanoseconds run on from `10 ^ 9`.
-/

namespace Chronicle

structure Instant where
  seconds : Int
  nanos : Nat
deriving DecidableEq, Repr

structure CivilTime where
  date : Date
  hour : Nat
  minute : Nat
  second : Nat
  nanos : Nat
deriving DecidableEq, Repr

namespace Instant

def nanosPerSecond : Nat := 1000000000

/-- Earlier or equal: the seconds count before the nanoseconds. -/
instance : LE Instant where
  le a b := a.seconds < b.seconds ∨ a.seconds = b.seconds ∧ a.nanos ≤ b.nanos

instance (a b : Instant) : Decidable (a ≤ b) :=
  inferInstanceAs (Decidable (a.seconds < b.seconds ∨ a.seconds = b.seconds ∧ a.nanos ≤ b.nanos))

/-- The instant a number of seconds later. A move forward leaves a leap second at its start, a move
back at its end. -/
def advance (t : Instant) (n : Int) : Instant :=
  if nanosPerSecond ≤ t.nanos ∧ 0 < n then ⟨t.seconds + n, t.nanos - nanosPerSecond⟩
  else if nanosPerSecond ≤ t.nanos ∧ n < 0 then ⟨t.seconds + 1 + n, t.nanos - nanosPerSecond⟩
  else ⟨t.seconds + n, t.nanos⟩

/-- The date and time of day in UTC; a leap second is second 60. -/
def toCivil (t : Instant) : CivilTime where
  date := .ofDays (t.seconds / 86400)
  hour := (t.seconds % 86400).toNat / 3600
  minute := (t.seconds % 86400).toNat / 60 % 60
  second := (t.seconds % 86400).toNat % 60 + t.nanos / nanosPerSecond
  nanos := t.nanos % nanosPerSecond

end Instant

namespace CivilTime

def IsValid (c : CivilTime) : Prop :=
  c.date.IsValid ∧ -262143 ≤ c.date.year ∧ c.date.year ≤ 262142 ∧ c.hour < 24 ∧ c.minute < 60 ∧ c.second ≤ 60

instance (c : CivilTime) : Decidable c.IsValid := inferInstanceAs (Decidable (_ ∧ _ ∧ _ ∧ _ ∧ _ ∧ _))

/-- The instant of a valid time written at `offset` seconds east of UTC. Second 60 is the leap second
after second 59. -/
def toInstant? (c : CivilTime) (offset : Int) : Option Instant :=
  if c.IsValid then
    let seconds := c.date.toDays * 86400 + c.hour * 3600 + c.minute * 60 + min c.second 59 - offset
    some ⟨seconds, c.nanos + if c.second = 60 then Instant.nanosPerSecond else 0⟩
  else none

end CivilTime

end Chronicle
