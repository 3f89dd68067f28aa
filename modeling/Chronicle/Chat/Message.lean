import Chronicle.Json.Record

/-!
# Chat messages

A message has an author, its current text, and the alternate texts that were generated for it, its
swipes. The active swipe is kept equal to the current text when either is changed.
-/

namespace Chronicle

inductive Role where
  | user | assistant | system
deriving DecidableEq, Repr

namespace Role

def name : Role → String
  | user => "user"
  | assistant => "assistant"
  | system => "system"

def ofName? : String → Option Role
  | "user" => some user
  | "assistant" => some assistant
  | "system" => some system
  | _ => none

/-- A role is written as its name; an object with the name as its one key is read too. -/
def ofDocument? : Document → Option Role
  | .str s => ofName? s
  | .obj [(some s, .null)] => ofName? s
  | _ => none

end Role

structure Message where
  id : Nat
  role : Role
  text : String
  swipes : List String
  swipeId : Option Nat
deriving DecidableEq, Repr

namespace Message

def plain (id : Nat) (role : Role) (text : String) : Message := ⟨id, role, text, [], none⟩

def isUser (m : Message) : Bool := m.role = .user

def activeIndex (m : Message) : Nat := m.swipeId.getD 0

/-- The text of the active swipe; without one, the text of the message. -/
def activeText (m : Message) : String := m.swipes[m.activeIndex]?.getD m.text

def setText (text : String) (m : Message) : Message :=
  { m with text, swipes := m.swipes.set m.activeIndex text }

def selectSwipe? (k : Nat) (m : Message) : Option Message :=
  m.swipes[k]?.map fun text => { m with text, swipeId := some k }

/-- Appends a swipe and makes it the current text. In a message without swipes the former text
becomes the first one. -/
def addSwipe (text : String) (m : Message) : Message :=
  let swipes := (if m.swipes.isEmpty then [m.text] else m.swipes) ++ [text]
  { m with text, swipes, swipeId := some (swipes.length - 1) }

def toJson (m : Message) : Json :=
  .obj <| [("message_id", .ofNat m.id), ("role", .str m.role.name), ("message", .str m.text)] ++
    (if m.swipes.isEmpty then [] else [("swipes", .ofStrings m.swipes)]) ++
    m.swipeId.toList.map fun k => ("swipe_id", .ofNat k)

def countOrNull? : Document → Option (Option Nat)
  | .null => some none
  | d => d.asCount?.map some

def ofDocument? (d : Document) : Option Message := do
  let fields ← d.record? ["message_id", "role", "message", "swipes", "swipe_id"]
  let id ← Document.required fields "message_id" Document.asCount?
  let role ← Document.required fields "role" Role.ofDocument?
  let text ← Document.required fields "message" Document.asString?
  let swipes ← Document.optional fields "swipes" [] (Document.asList? Document.asString?)
  let swipeId ← Document.optional fields "swipe_id" none countOrNull?
  return ⟨id, role, text, swipes, swipeId⟩

end Message

end Chronicle
