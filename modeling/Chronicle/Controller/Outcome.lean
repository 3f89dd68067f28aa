import Chronicle.Chat.Transcript
import Chronicle.Command.Outcome

/-!
# What a handler did
-/

namespace Chronicle

inductive HandlerSkip where
  | emptyChat
  | noNewMessage (start : Nat)
  | alreadyHandled (index : Nat)
  | lastFromUser
  | fromUser (index : Nat)
  | noMessage (index : Nat)
deriving DecidableEq, Repr

def HandlerSkip.message : HandlerSkip → String
  | emptyChat => "chat is empty"
  | noNewMessage start => s!"no new message since generation start at {start}"
  | alreadyHandled index => s!"message {index} already handled"
  | lastFromUser => "last message is the user's"
  | fromUser index => s!"message {index} is the user's"
  | noMessage index => s!"no message at index {index}"

inductive Outcome where
  /-- The commands of a message were applied and its new state was embedded. -/
  | processed (index : Nat) (report : Report)
  /-- The state was loaded from the message `foundAt`, searching from `index` on; without a message
  it is the initial state. -/
  | reloaded (index foundAt : Option Nat)
  /-- The start of a generation was recorded. -/
  | marked (index : Option Nat)
  | skipped (reason : HandlerSkip)
  | failed (e : HostError)
deriving Repr

def HostError.handlerMessage (e : HostError) : String := "host error: " ++ e.message

def Outcome.message : Outcome → String
  | processed index report => s!"processed message {index} ({Report.summary report})"
  | reloaded _ (some found) => s!"reloaded state from message {found}"
  | reloaded _ none => "reloaded initial state"
  | marked (some index) => s!"generation started after message {index}"
  | marked none => "generation started in an empty chat"
  | skipped reason => "skipped: " ++ reason.message
  | failed e => "failed: " ++ e.handlerMessage

end Chronicle
