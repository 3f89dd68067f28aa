import Chronicle.Command.Token
import Chronicle.Number.Reading
import Chronicle.Json.Printer
import Chronicle.Text.Search

/-!
# Commands

A command asks for one change of the state. Its token gives the fields divided by `::`; surplus
fields are ignored. `Command.render` writes a command as a token again.
-/

namespace Chronicle

inductive Command where
  /-- Write a value at a path. -/
  | set (path : String) (value : Json)
  /-- Add to the number at a path, or append to the array there. -/
  | add (path : String) (delta : String)
  /-- Schedule a write for a later round or time. -/
  | timedSet (path : String) (value : Json) (reason : String) (gameTime : Bool) (time : String)
  /-- Append a summary. -/
  | responseSummary (text : String)
  /-- Drop scheduled writes by position, variable or reason. -/
  | cancelSet (identifier : String)
deriving Repr

inductive Malformation where
  | missingName | missingValue | missingIncrement | fieldCount | emptyField
deriving DecidableEq, Repr

def Malformation.message : Malformation → String
  | missingName => "missing variable name"
  | missingValue => "missing value"
  | missingIncrement => "missing increment"
  | fieldCount => "expected 5 fields"
  | emptyField => "empty field"

namespace Command

def keyword : Command → Keyword
  | set .. => .set
  | add .. => .add
  | timedSet .. => .timedSet
  | responseSummary .. => .responseSummary
  | cancelSet .. => .cancelSet

/-- The text of a value in a command: texts stand without quotes. -/
def valueText : Json → String
  | .str s => s
  | v => v.compact

def fields : Command → List String
  | set path value => [path, valueText value]
  | add path delta => [path, delta]
  | timedSet path value reason gameTime time =>
    [path, valueText value, reason, if gameTime then "true" else "false", time]
  | responseSummary text => [text]
  | cancelSet identifier => [identifier]

def render (c : Command) : String :=
  "<" ++ " :: ".intercalate (c.keyword.word :: c.fields) ++ ">"

def isTrueWord (s : String) : Bool := s.toList.map Char.toLower = ['t', 'r', 'u', 'e']

def fieldsOf (params : List Char) : List String :=
  (Text.splitFields params).map fun field => .ofList (Text.trim field)

def ofToken (t : Token) : Except Malformation Command :=
  match t.keyword, fieldsOf t.params with
  | .responseSummary, _ => .ok (.responseSummary (.ofList (Text.trim t.params)))
  | _, [] | _, "" :: _ => .error .missingName
  | .cancelSet, identifier :: _ => .ok (.cancelSet identifier)
  | .set, path :: value :: _ => .ok (.set path (.ofText value))
  | .set, _ => .error .missingValue
  | .add, path :: delta :: _ => .ok (.add path delta)
  | .add, _ => .error .missingIncrement
  | .timedSet, path :: value :: reason :: gameTime :: time :: _ =>
    if [value, reason, gameTime, time].contains "" then .error .emptyField
    else .ok (.timedSet path (.ofText value) reason (isTrueWord gameTime) time)
  | .timedSet, _ => .error .fieldCount

def parseAll (text : String) : List Command := (tokens text.toList).filterMap fun t => (ofToken t).toOption

end Command

end Chronicle
