import Chronicle.Json.Printer
import Chronicle.Number.Reading
import Chronicle.Time.Reading

/-!
# Scheduled writes

A scheduled write waits for a round of the chat or for an instant. It is kept as a list of five
items: name, value, kind of target, target, reason. `ScheduledWrite.ofJson` also reads lists without
a reason and objects with named fields.
-/

namespace Chronicle

/-- The narrative clock: the index of the newest message and the time of day. -/
structure Tick where
  round : Int
  now : Instant
deriving DecidableEq, Repr

inductive Target where
  | round (n : Int)
  | gameTime (t : Instant)
deriving DecidableEq, Repr

namespace Target

def isGameTime : Target → Bool
  | .round _ => false
  | .gameTime _ => true

def isDue (tick : Tick) : Target → Bool
  | .round n => decide (n ≤ tick.round)
  | .gameTime t => decide (t ≤ tick.now)

def toJson : Target → Json
  | .round n => .ofInt n
  | .gameTime t => .str (.ofList t.render)

end Target

/-- A write of `value` to the variable `name` for a later time. -/
structure ScheduledWrite where
  name : String
  value : Json
  target : Target
  reason : String
deriving Repr

inductive EntryError where
  | unknownForm
  | itemCount (n : Nat)
  | kindNotBoolean
  | timeNotText (raw : Json)
  | invalidTime (text : String)
  | roundNotNumber (raw : Json)
deriving Repr

def EntryError.message : EntryError → String
  | .unknownForm => "data did not match any variant of untagged enum EntryWire"
  | .itemCount n => s!"volatile entry must have 4 or 5 fields, got {n}"
  | .kindNotBoolean => "volatile entry isGameTime must be a boolean"
  | .timeNotText raw => s!"game-time target must be a timestamp string, got {raw.compact}"
  | .invalidTime text => s!"invalid game-time target '{text}'"
  | .roundNotNumber raw => s!"round target must be a number, got {raw.compact}"

def saturate (n : Int) : Int := max (-twoTo 63) (min n (twoTo 63 - 1))

/-- Reads a target. A round that is not integral is rounded up. -/
def Target.ofJson (isGameTime : Bool) (raw : Json) : Except EntryError Target :=
  if isGameTime then
    match raw with
    | .str text => ((Instant.ofText? text).map Target.gameTime).elim (.error (.invalidTime text)) .ok
    | _ => .error (.timeNotText raw)
  else
    let round? : Option Int := match raw with
      | .num (.int n) => some n
      | .num (.float x) => some x.ceil
      | .str text => (Binary64.ofText? text).map (·.ceil)
      | _ => none
    round?.elim (.error (.roundNotNumber raw)) fun n => .ok (.round (saturate n))

namespace ScheduledWrite

def isDue (tick : Tick) (w : ScheduledWrite) : Bool := w.target.isDue tick

/-- Whether an identifier names the write, by its variable or by its reason. -/
def matchesId (identifier : String) (w : ScheduledWrite) : Bool :=
  w.name = identifier || w.reason = identifier

def toJson (w : ScheduledWrite) : Json :=
  .arr [.str w.name, w.value, .bool w.target.isGameTime, w.target.toJson, .str w.reason]

/-- A text item; other values stand for the text that they are written as. -/
def itemText : Json → String
  | .str s => s
  | v => v.compact

def reasonText : Json → String
  | .null => ""
  | v => itemText v

def ofItems (name value kind target reason : Json) : Except EntryError ScheduledWrite :=
  match kind with
  | .bool isGameTime => do
    return ⟨itemText name, value, ← Target.ofJson isGameTime target, reasonText reason⟩
  | _ => .error .kindNotBoolean

/-- The parts of a write with named fields. Name and target are there; value, kind and reason may be
missing, but have the right type. -/
def ofFields? (fields : Object) : Option (String × Json × Bool × Json × String) := do
  let name ← match fields.lookup "varName" with
    | some (.str s) => some s
    | _ => none
  let isGameTime ← match fields.lookup "isGameTime" with
    | some (.bool b) => some b
    | some _ => none
    | none => some false
  let target ← fields.lookup "targetTime"
  let reason ← match fields.lookup "reason" with
    | some (.str s) => some s
    | some _ => none
    | none => some ""
  return (name, (fields.lookup "value").getD .null, isGameTime, target, reason)

def ofJson : Json → Except EntryError ScheduledWrite
  | .arr [name, value, kind, target] => ofItems name value kind target .null
  | .arr [name, value, kind, target, reason] => ofItems name value kind target reason
  | .arr items => .error (.itemCount items.length)
  | .obj fields =>
    match ofFields? fields with
    | some (name, value, isGameTime, target, reason) => do
      return ⟨name, value, ← Target.ofJson isGameTime target, reason⟩
    | none => .error .unknownForm
  | _ => .error .unknownForm

end ScheduledWrite

end Chronicle
