import Chronicle.Json.Parser
import Chronicle.Json.Record
import Chronicle.State.Schedule

/-!
# World states

A state holds the tree of variables, the scheduled writes in the order in which they were made, and
a list of summaries. It is written as a record and stored as a plain value, whose keys are sorted.
-/

namespace Chronicle

structure State where
  vars : Object
  schedule : List ScheduledWrite
  summaries : List String
deriving Repr

namespace State

/-- The state of a chat that has no snapshot. -/
def initial : State := ⟨[], [], []⟩

def toJson (s : State) : Json :=
  .obj [("static", .obj s.vars), ("volatile", .arr (s.schedule.map (·.toJson))),
    ("responseSummary", .ofStrings s.summaries)]

def toStored (s : State) : Json :=
  .obj [("responseSummary", .ofStrings s.summaries), ("static", .obj s.vars),
    ("volatile", .arr (s.schedule.map (·.toJson)))]

/-- The scheduled writes of a list; what is none is dropped, and what is no list counts as empty. -/
def scheduleOf : Json → List ScheduledWrite
  | .arr items => items.filterMap fun v => (ScheduledWrite.ofJson v).toOption
  | _ => []

def ofDocument? (d : Document) : Option State := do
  let fields ← d.record? ["static", "volatile", "responseSummary"]
  let vars ← Document.optional fields "static" [] Document.asObject?
  let schedule ← Document.optional fields "volatile" [] fun d => d.toJson?.map scheduleOf
  let summaries ← Document.optional fields "responseSummary" [] (Document.asList? Document.asString?)
  return ⟨vars, schedule, summaries⟩

def ofStored? (v : Json) : Option State := ofDocument? v.toDocument

def parse? (text : String) : Option State := (Document.ofString? text).bind ofDocument?

end State

end Chronicle
