import Chronicle.Chat.Message
import Chronicle.Command.Interpreter
import Chronicle.State.Block

/-!
# Turns

What processing does to a message: the due writes and the commands of the message are applied to the
state, and the new state is embedded in place of the old one.
-/

namespace Chronicle

structure Options where
  /-- Leave the commands in the text of a processed message. -/
  keepCommands : Bool
  /-- Let other handlers run before a swipe is handled. -/
  deferSwipe : Bool
deriving DecidableEq, Repr

structure Turn where
  report : Report
  state : State
  text : String
deriving Repr

def Turn.take (options : Options) (tick : Tick) (s : State) (text : String) : Turn :=
  let narrative := Block.strip text
  let (promoted, s) := s.promoteDue tick
  let (report, s) := s.apply tick (promoted ++ Command.parseAll narrative)
  let kept := if options.keepCommands then narrative else stripCommands narrative
  ⟨report, s, Block.embed kept s⟩

/-- The newest state that the messages of others than the user carry, with the index of its message. -/
def findState (history : List Message) : Option (Nat × State) :=
  history.zipIdx.reverse.findSome? fun (m, i) =>
    if m.isUser then none else (Block.parse? m.activeText).map (i, ·)

end Chronicle
