import Chronicle.Chat.Event
import Chronicle.Controller.Outcome
import Chronicle.Controller.Program
import Chronicle.Controller.Turn

/-!
# Handlers

The controller keeps the variable store of a chat equal to the state after its newest message. A
finished generation is processed once; swipes, edits and a change of the chat load the newest state
that a message carries. Processing applies commands, loading never does.
-/

namespace Chronicle.Controller
open HostProgram

/-- Applies the commands of a message to the stored state and embeds the result in the message. -/
def process (options : Options) (index : Nat) (m : Message) : SessionProgram Outcome := do
  if m.isUser then return .skipped (.fromUser index)
  let s := (State.ofStored? (← readStore)).getD .initial
  let round := (← lastIndex).getD index
  let now ← (Program.ask .now : Program Instant)
  let turn := Turn.take options ⟨round, now⟩ s m.activeText
  writeStore turn.state.toStored
  setMessage index turn.text
  modify fun session => { session with watermark := some (.of index turn.text) }
  return .processed index turn.report

/-- Loads the newest state at or before a message into the variable store. The message counts as
handled only if it carries that state itself. -/
def reload (start : Option Nat) : SessionProgram Outcome := do
  let target := (lastOf (← length)).bind fun last => start.map (min · last)
  let history ← match target with
    | some t => messages 0 (t + 1)
    | none => pure []
  let found := findState history
  writeStore (found.elim State.initial (·.2)).toStored
  let watermark := target.bind fun t =>
    if found.map (·.1) = some t then (history[t]?).map fun m => Watermark.of t m.activeText else none
  modify fun session => { session with watermark }
  return .reloaded target (found.map (·.1))

def onGenerationStarted : HostProgram Outcome :=
  withSession do
    let index ← lastIndex
    modify fun session => { session with generationStart := index }
    return .marked index

/-- Processes the last message unless it was handled before. -/
def onGenerationEnded (options : Options) : HostProgram Outcome :=
  withSession do
    let started := (← get).generationStart
    modify fun session => { session with generationStart := none }
    match ← lastIndex with
    | none => return .skipped .emptyChat
    | some last =>
      let m ← message last
      if (← get).covers last m.activeText then
        match started.filter (last ≤ ·) with
        | some start => return .skipped (.noNewMessage start)
        | none => return .skipped (.alreadyHandled last)
      else process options last m

def onSwipe (options : Options) (index : Nat) : HostProgram Outcome := do
  if options.deferSwipe then (Program.ask .pause : Program Unit)
  withSession (reload (some index))

def onEdit : HostProgram Outcome :=
  withSession do
    match ← lastIndex with
    | none => return .skipped .emptyChat
    | some last =>
      if (← message last).isUser then return .skipped .lastFromUser
      else reload (some last)

/-- Starts the session of the chat over and loads the newest state. -/
def onChatChanged : HostProgram Outcome :=
  withSession do
    set Session.empty
    let count ← length
    let history ← messages 0 count
    modify fun session => { session with generationStart := lastOf count }
    let generated := history.zipIdx.reverse.find? fun (m, _) => !m.isUser
    reload (generated.map (·.2))

def processMessage (options : Options) (index : Nat) : HostProgram Outcome :=
  withSession do
    let m ← try some <$> message index catch
      | .messageOutOfRange .. => pure none
      | e => throw e
    match m with
    | some m => process options index m
    | none => return .skipped (.noMessage index)

def reloadFrom (index : Nat) : HostProgram Outcome := withSession (reload (some index))

def latestState : HostProgram (Option (Nat × State)) := do
  return findState (← messages 0 (← length))

/-- Handles an event. An error is an outcome. -/
def handle (options : Options) (e : Event) : Program Outcome := do
  let result ← ExceptT.run <| match e with
    | .generationStarted => onGenerationStarted
    | .generationEnded | .generationStopped => onGenerationEnded options
    | .messageSwiped index => onSwipe options index
    | .messageEdited _ => onEdit
    | .chatChanged => onChatChanged
  match result with
  | .ok outcome => return outcome
  | .error e => return .failed e

def handleAll (options : Options) (events : List Event) (w : World) : List Outcome × World :=
  match events with
  | [] => ([], w)
  | e :: rest =>
    let (outcome, w) := (handle options e).run w
    let (outcomes, w) := handleAll options rest w
    (outcome :: outcomes, w)

/-- Runs programs at once: each to its first pause in turn, then the paused ones to their end. -/
def runConcurrently (programs : List (Program α)) (w : World) : List α × World :=
  let (begun, w) := programs.foldl (fun (begun, w) p =>
    let (r, w) := p.runToPause w
    (begun ++ [r], w)) ([], w)
  begun.foldl (fun (results, w) r =>
    match r with
    | .inl a => (results ++ [a], w)
    | .inr p =>
      let (a, w) := p.run w
      (results ++ [a], w)) ([], w)

end Chronicle.Controller
