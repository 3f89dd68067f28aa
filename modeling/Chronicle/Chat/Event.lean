import Chronicle.Json.Record

/-!
# Events in the life of a chat

The host announces what happens to a chat. A bus holds the announced events until they are handled;
it has room for a number of events that is a power of two, and loses the oldest ones beyond.
-/

namespace Chronicle

inductive Event where
  | generationStarted | generationEnded | generationStopped
  | messageSwiped (index : Nat)
  | messageEdited (index : Nat)
  | chatChanged
deriving DecidableEq, Repr

namespace Event

def name : Event → String
  | generationStarted => "generation_started"
  | generationEnded => "generation_ended"
  | generationStopped => "generation_stopped"
  | messageSwiped _ => "message_swiped"
  | messageEdited _ => "message_edited"
  | chatChanged => "chat_changed"

def toJson (e : Event) : Json :=
  .obj <| ("type", .str e.name) :: match e with
    | messageSwiped i | messageEdited i => [("index", .ofNat i)]
    | _ => []

/-- The event with a name, of the message that `index?` gives if the event has one. -/
def ofParts? (name : String) (index? : Option Nat) : Option Event :=
  match name with
  | "generation_started" => some generationStarted
  | "generation_ended" => some generationEnded
  | "generation_stopped" => some generationStopped
  | "message_swiped" => index?.map messageSwiped
  | "message_edited" => index?.map messageEdited
  | "chat_changed" => some chatChanged
  | _ => none

def hasIndex : Event → Bool
  | messageSwiped _ | messageEdited _ => true
  | _ => false

/-- An event is an object with its name as `type`, or a list of its name and its index. -/
def ofJson? : Json → Option Event
  | .obj fields =>
    match fields.lookup "type" with
    | some (.str name) => ofParts? name ((fields.lookup "index").bind fun v => v.toDocument.asCount?)
    | _ => none
  | .arr [.str name] => (ofParts? name (some 0)).filter fun e => !e.hasIndex
  | .arr [.str name, v] => (ofParts? name v.toDocument.asCount?).filter hasIndex
  | _ => none

end Event

/-- The number of events that a bus for `capacity` events has room for: the next power of two. -/
def Bus.room (capacity : Nat) : Nat := capacity.nextPowerOfTwo

def Bus.kept (capacity : Nat) (events : List Event) : List Event :=
  events.drop (events.length - Bus.room capacity)

end Chronicle
