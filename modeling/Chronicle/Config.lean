import Chronicle.Chat.Disk
import Chronicle.Controller.Turn
import Chronicle.Json.Record
import Chronicle.Toml.Parser

/-!
# Configuration

The settings of the program: how it logs, and how the controller works. They are read from a TOML
file, changed by variables of the environment, and checked.
-/

namespace Chronicle

structure Config.Log where
  level : String
  json : Bool
deriving DecidableEq, Repr

structure Config.Reconcile where
  keepCommands : Bool
  deferSwipe : Bool
  /-- The number of events that the bus has room for. -/
  eventCapacity : Nat
deriving DecidableEq, Repr

structure Config where
  log : Config.Log
  reconcile : Config.Reconcile
deriving DecidableEq, Repr

inductive ConfigError where
  | unreadable (path : String)
  | syntaxError (path : String)
  | unknownLevel (level : String)
  | noCapacity
  | capacityOutOfRange
  | badOverride (value : String)
deriving DecidableEq, Repr

namespace Config

def logLevels : List String := ["trace", "debug", "info", "warn", "error"]

end Config

def ConfigError.reason : ConfigError → String
  | unreadable path => "cannot read " ++ path
  | syntaxError path => "cannot parse " ++ path
  | unknownLevel level =>
    "log.level must be one of " ++ ", ".intercalate Config.logLevels ++ s!", got '{level}'"
  | noCapacity => "reconcile.event_capacity must be > 0"
  | capacityOutOfRange => "out-of-range value for u64 type"
  | badOverride value => s!"SAM_KEEP_COMMANDS must be true or false, got '{value}'"

namespace Config

def Log.default : Log := ⟨"info", false⟩

def Reconcile.default : Reconcile := ⟨false, true, 256⟩

def default : Config := ⟨.default, .default⟩

def options (c : Config) : Options := ⟨c.reconcile.keepCommands, c.reconcile.deferSwipe⟩

/-- Reads `[log]`. With `surplus` a list may have more items than the record has fields. -/
def Log.ofDocument? (surplus : Bool) (d : Document) : Option Log := do
  let fields ← (if surplus then d.takeItems 2 else d).record? ["level", "json"]
  let level ← Document.optional fields "level" Log.default.level Document.asString?
  let json ← Document.optional fields "json" false Document.asBool?
  return ⟨level, json⟩

def Reconcile.ofDocument? (surplus : Bool) (d : Document) : Option Reconcile := do
  let names := ["keep_commands", "defer_swipe", "event_capacity"]
  let fields ← (if surplus then d.takeItems 3 else d).record? names
  let keepCommands ← Document.optional fields "keep_commands" false Document.asBool?
  let deferSwipe ← Document.optional fields "defer_swipe" true Document.asBool?
  let eventCapacity ← Document.optional fields "event_capacity" 256 Document.asCount?
  return ⟨keepCommands, deferSwipe, eventCapacity⟩

def ofDocument? (surplus : Bool) (d : Document) : Option Config := do
  let fields ← d.record? ["log", "reconcile"]
  let log ← Document.optional fields "log" .default (Log.ofDocument? surplus)
  let reconcile ← Document.optional fields "reconcile" .default (Reconcile.ofDocument? surplus)
  return ⟨log, reconcile⟩

def validate (c : Config) : Except ConfigError Unit :=
  if !logLevels.contains c.log.level then .error (.unknownLevel c.log.level)
  else if c.reconcile.eventCapacity = 0 then .error .noCapacity
  else .ok ()

def load (disk : Disk) (path : String) : Except ConfigError Config :=
  match disk.read path with
  | .error .isDirectory | .error .noText => .error (.unreadable path)
  | .error _ => .ok default
  | .ok s =>
    match (Toml.parse? s).bind (ofDocument? true) with
    | none => .error (.syntaxError path)
    | some c => do
      c.validate
      return c

/-- A word of the environment without blanks around it, in small letters. -/
def normalized (s : String) : String := .ofList ((Text.trim s.toList).map Char.toLower)

/-- Changes the configuration by variables of the environment. -/
def override (lookup : String → Option String) (c : Config) : Except ConfigError Config := do
  let c := match lookup "SAM_LOG_LEVEL" with
    | some level => { c with log.level := normalized level }
    | none => c
  match (lookup "SAM_KEEP_COMMANDS").map normalized with
  | none => return c
  | some "true" | some "1" => return { c with reconcile.keepCommands := true }
  | some "false" | some "0" => return { c with reconcile.keepCommands := false }
  | some value => throw (.badOverride value)

/-- Reads the configuration of a file, changes it by the environment, and checks the result. -/
def loadWith (lookup : String → Option String) (disk : Disk) (path : String) : Except ConfigError Config := do
  let c ← (← load disk path).override lookup
  c.validate
  return c

def toJson (c : Config) : Json :=
  .obj [("log", .obj [("level", .str c.log.level), ("json", .bool c.log.json)]),
    ("reconcile", .obj [("keep_commands", .bool c.reconcile.keepCommands),
      ("defer_swipe", .bool c.reconcile.deferSwipe), ("event_capacity", .ofNat c.reconcile.eventCapacity)])]

/-- The configuration as TOML. Integers of TOML have 64 bits with a sign. -/
def toToml (c : Config) : Except ConfigError String :=
  if twoTo 63 ≤ c.reconcile.eventCapacity then .error .capacityOutOfRange
  else
    .ok <| "\n".intercalate ["[log]", s!"level = \"{c.log.level}\"", s!"json = {c.log.json}", "",
      "[reconcile]", s!"keep_commands = {c.reconcile.keepCommands}", s!"defer_swipe = {c.reconcile.deferSwipe}",
      s!"event_capacity = {c.reconcile.eventCapacity}", ""]

end Config

end Chronicle
