import Chronicle.Chat.Host
import Chronicle.Controller.Session
import Chronicle.Time.Instant

/-!
# Programs over a host

A handler of the controller is a program: a tree of calls to the host, the clock and the sessions.
Each call is one step, so programs can be run at once, one after the other, or with steps of others
in between.
-/

namespace Chronicle

/-- A step of a program. A chat's session is held from `lock` to `unlock`, which stores it. -/
inductive Call where
  | conversationId
  | length
  | message (i : Nat)
  | messages (start stop : Nat)
  | setMessage (i : Nat) (text : String)
  | readStore
  | writeStore (v : Json)
  | now
  | lock (id : String)
  | unlock (id : String) (s : Session)
  /-- Lets other programs run first. -/
  | pause

abbrev Call.Answer : Call → Type
  | conversationId => Except HostError String
  | length => Except HostError Nat
  | message _ => Except HostError Message
  | messages .. => Except HostError (List Message)
  | setMessage .. | writeStore _ => Except HostError Unit
  | readStore => Except HostError Json
  | now => Instant
  | lock _ => Session
  | unlock .. | pause => Unit

inductive Program (α : Type) where
  | done (a : α)
  | call (c : Call) (next : c.Answer → Program α)

namespace Program

def bind : Program α → (α → Program β) → Program β
  | done a, f => f a
  | call c next, f => call c fun r => bind (next r) f

instance : Monad Program where
  pure := done
  bind := bind

def ask (c : Call) : Program c.Answer := call c done

end Program

def lastOf (length : Nat) : Option Nat := if length = 0 then none else some (length - 1)

/-- A program that the host may stop with an error. -/
abbrev HostProgram := ExceptT HostError Program

namespace HostProgram

def conversationId : HostProgram String := ExceptT.mk (Program.ask .conversationId)

def length : HostProgram Nat := ExceptT.mk (Program.ask .length)

def lastIndex : HostProgram (Option Nat) := return lastOf (← length)

def message (i : Nat) : HostProgram Message := ExceptT.mk (Program.ask (.message i))

def messages (start stop : Nat) : HostProgram (List Message) :=
  ExceptT.mk (Program.ask (.messages start stop))

def setMessage (i : Nat) (text : String) : HostProgram Unit := ExceptT.mk (Program.ask (.setMessage i text))

def readStore : HostProgram Json := ExceptT.mk (Program.ask .readStore)

def writeStore (v : Json) : HostProgram Unit := ExceptT.mk (Program.ask (.writeStore v))

end HostProgram

/-- A program on the session of a chat. What it does to the session stays when it stops with an
error. -/
abbrev SessionProgram := ExceptT HostError (StateT Session Program)

instance : MonadLift HostProgram SessionProgram where
  monadLift p := ExceptT.mk (StateT.lift p.run)

/-- Runs a program on the session of the open chat, which is held meanwhile. -/
def withSession (p : SessionProgram α) : HostProgram α := do
  let id ← HostProgram.conversationId
  let (result, session) ← p.run.run (← Program.ask (.lock id))
  Program.ask (.unlock id session)
  ExceptT.mk (pure result)

/-- What programs run on: a host, a clock, and the sessions of the chats seen so far. -/
structure World where
  host : Host
  clock : Instant
  sessions : List (String × Session)
deriving Repr

namespace World

def session (w : World) (id : String) : Session := (w.sessions.lookup id).getD .empty

def serve (w : World) (k : CallKind) (call : Host → Except HostError α × Host) : Except HostError α × World :=
  let (r, host) := w.host.guarded k call
  (r, { w with host })

def answer (w : World) : (c : Call) → c.Answer × World
  | .conversationId => w.serve .conversationId fun h => (.ok h.chat.id, h)
  | .length => w.serve .length fun h => (.ok h.chat.messages.length, h)
  | .message i => w.serve .message fun h => (h.chat.message i, h)
  | .messages start stop => w.serve .messages fun h => (.ok (h.chat.slice start stop), h)
  | .setMessage i text => w.serve .setMessage (Host.setMessage i text)
  | .readStore => w.serve .readStore fun h => (.ok h.chat.store, h)
  | .writeStore v => w.serve .writeStore (Host.writeStore v)
  | .now => (w.clock, w)
  | .lock id => (w.session id, w)
  | .unlock id s => ((), { w with sessions := (id, s) :: w.sessions.filter (·.1 ≠ id) })
  | .pause => ((), w)

end World

namespace Program

def run : Program α → World → α × World
  | done a, w => (a, w)
  | call c next, w =>
    let (r, w) := w.answer c
    run (next r) w

/-- Runs a program to its end or to its first pause; what is left of it is the second case. -/
def runToPause : Program α → World → (α ⊕ Program α) × World
  | done a, w => (.inl a, w)
  | call .pause next, w => (.inr (next ()), w)
  | call c next, w =>
    let (r, w) := w.answer c
    runToPause (next r) w

end Program

end Chronicle
