import Chronicle.Chat.Disk
import Chronicle.Chat.Message
import Chronicle.Json.Parser
import Chronicle.Json.Printer

/-!
# Transcripts

A transcript is a whole chat: its name, its messages, and its store of variables.
-/

namespace Chronicle

inductive FileTrouble where
  | unreadable (path : String) (e : DiskError)
  /-- The file holds no transcript. -/
  | unparsable (path : String)
  | noDirectory (e : DiskError)
  | unwritable (e : DiskError)
deriving DecidableEq, Repr

def FileTrouble.reason : FileTrouble → String
  | unreadable path e => "Failed to read chat file " ++ path ++ ": " ++ e.message
  | unparsable path => "Failed to parse chat file " ++ path
  | noDirectory e => "Failed to create chat directory: " ++ e.message
  | unwritable e => "Failed to write chat file: " ++ e.message

inductive HostError where
  | messageOutOfRange (index length : Nat)
  | storage (reason : String)
  | file (trouble : FileTrouble)
  | store (reason : String)
deriving DecidableEq, Repr

def HostError.message : HostError → String
  | messageOutOfRange index length => s!"Message index {index} out of range (chat has {length} messages)"
  | storage reason => "Storage error: " ++ reason
  | file trouble => "Storage error: " ++ trouble.reason
  | store reason => "Variable store error: " ++ reason

structure Transcript where
  id : String
  messages : List Message
  /-- What has been put into the store of variables. -/
  stored : Json
deriving Repr

namespace Transcript

def empty (id : String) : Transcript := ⟨id, [], .obj []⟩

def message (c : Transcript) (i : Nat) : Except HostError Message :=
  c.messages[i]?.elim (.error (.messageOutOfRange i c.messages.length)) .ok

/-- The chat with a change made to one message, and what the change results in. -/
def update (c : Transcript) (i : Nat) (f : Message → Except HostError α × Message) :
    Except HostError α × Transcript :=
  match c.message i with
  | .error e => (.error e, c)
  | .ok m =>
    let (r, m) := f m
    (r, { c with messages := c.messages.set i m })

/-- The messages from `start` up to but not including `stop`, as far as there are any. -/
def slice (c : Transcript) (start stop : Nat) : List Message := (c.messages.take stop).drop start

/-- The variable store; nothing counts as an empty object. -/
def store (c : Transcript) : Json :=
  match c.stored with
  | .null => .obj []
  | v => v

def push (c : Transcript) (role : Role) (text : String) : Transcript :=
  { c with messages := c.messages ++ [.plain c.messages.length role text] }

def toJson (c : Transcript) : Json :=
  .obj [("id", .str c.id), ("messages", .arr (c.messages.map (·.toJson))), ("variables", c.stored)]

def ofDocument? (d : Document) : Option Transcript := do
  let fields ← d.record? ["id", "messages", "variables"]
  let id ← Document.required fields "id" Document.asString?
  let messages ← Document.optional fields "messages" [] (Document.asList? Message.ofDocument?)
  let stored ← Document.optional fields "variables" (.obj []) Document.toJson?
  return ⟨id, messages, stored⟩

def parse? (text : String) : Option Transcript := (Document.ofString? text).bind ofDocument?

end Transcript

end Chronicle
