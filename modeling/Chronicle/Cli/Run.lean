import Chronicle.Cli.Arguments
import Chronicle.Cli.Failure
import Chronicle.Cli.Help
import Chronicle.Controller.Handlers

/-!
# Running the program

`run` carries out a command line over the files and the environment that it is given, and returns
the texts to print and the files as they are afterwards. A chat is opened as when it is selected in
its host: its newest state is loaded before the action. `reload` and `inspect` do without.
-/

namespace Chronicle.Cli

structure Environment where
  disk : Disk
  stdin : Except DiskError String
  lookup : String → Option String
  now : Instant

structure Result where
  code : Nat
  stdout : String
  stderr : String
  disk : Disk

structure Console where
  printed : String
  world : World

abbrev Job := ExceptT Failure (StateM Console)

namespace Job

def print (text : String) : Job Unit := modify fun c => { c with printed := c.printed ++ text }

def printLine (text : String) : Job Unit := print (text ++ "\n")

/-- Runs a program on the world; `failure` is how the run fails if the program does. -/
def perform (failure : HostError → Failure) (p : HostProgram α) : Job α := do
  let c ← get
  let (r, world) := p.run.run c.world
  set { c with world }
  match r with
  | .ok a => return a
  | .error e => throw (failure e)

def onHost (f : Host → Except HostError α × Host) : Job α := do
  let c ← get
  let (r, host) := f c.world.host
  set { c with world.host := host }
  match r with
  | .ok a => return a
  | .error e => throw (.host e)

def report (o : Outcome) : Job Unit :=
  match o with
  | .processed _ entries => do
    printLine ("✅ " ++ o.message)
    for (c, outcome) in entries do printLine ("   " ++ c.render ++ "  →  " ++ outcome.diagnostic)
  | .skipped _ => printLine ("⏭️  " ++ o.message)
  | .failed _ => printLine ("❌ " ++ o.message)
  | _ => printLine ("🔄 " ++ o.message)

def handled (p : HostProgram Outcome) : Job Unit := do report (← perform .handler p)

/-- Loads the newest state of the chat, as when it is selected. -/
def select : Job Unit := do let _ ← perform .handler Controller.onChatChanged

/-- The given index, or that of the newest message. -/
def indexOr (chat : String) (index : Option Nat) : Job Nat := do
  match index.or (← perform .host HostProgram.lastIndex) with
  | some index => return index
  | none => throw (.noMessages chat)

def printState (s : State) : Job Unit := do
  printLine s.toJson.pretty
  printLine ""
  printLine s!"   Variables:  {s.vars.length}"
  printLine s!"   Scheduled:  {s.schedule.length}"
  printLine s!"   Summaries:  {s.summaries.length}"

def inspect (index : Option Nat) (canonical : Bool) : Job Unit := do
  if canonical then
    printLine ("📦 Canonical state of " ++ (← perform .host HostProgram.conversationId))
    printLine (← perform .host HostProgram.readStore).pretty
  else
    let found ← match index with
      | some i => do
        let m ← perform .host (HostProgram.message i)
        pure ((Block.parse? m.activeText).map (i, ·))
      | none => perform .handler Controller.latestState
    match found with
    | some (i, s) => do
      printLine s!"📦 State embedded in message {i}"
      printState s
    | none => printLine "No embedded state found"

end Job

open Job

/-- The file and the work of an action on a chat. -/
def chatJob? (options : Options) : Action → Option (String × Job Unit)
  | .process chat index => some (chat, do
    select
    handled (index.elim (Controller.onGenerationEnded options) (Controller.processMessage options)))
  | .reload chat index => some (chat, handled (index.elim Controller.onChatChanged Controller.reloadFrom))
  | .swipe chat index choice => some (chat, do
    select
    let i ← indexOr chat index
    if let some k := choice then onHost (Host.requireSwipe i k)
    handled (Controller.onSwipe options i))
  | .edit chat index text => some (chat, do
    select
    let i ← indexOr chat index
    if let some s := text then onHost (Host.setMessage i s)
    handled Controller.onEdit)
  | .inspect chat index canonical => some (chat, inspect index canonical)
  | .parse _ | .config => none

def alignRight (n : Nat) : String :=
  let ds := toString n
  "".pushn ' ' (6 - ds.length) ++ ds

def alignLeft (n : Nat) : String :=
  let ds := toString n
  ds.pushn ' ' (6 - ds.length)

def listing (text : String) : String :=
  let commands := (locatedTokens text.toList).map fun (t, start, stop) => (t, Command.ofToken t, start, stop)
  let malformed := commands.countP fun (_, c, _) => c matches .error _
  let lines := commands.map fun (t, c, start, stop) =>
    "  " ++ alignRight start ++ ".." ++ alignLeft stop ++ " " ++
      match c with
      | .ok c => c.render
      | .error reason => "⚠️  " ++ (CommandError.malformed t.keyword reason).message
  let lines := lines ++ ["", s!"{commands.length} commands ({malformed} malformed)"] ++
    if (Block.parse? text).isSome then ["Text carries a state block"] else []
  String.join (lines.map (· ++ "\n"))

def failed (f : Failure) (disk : Disk) (stdout : String) : Result :=
  ⟨1, stdout, "Error: " ++ f.diagnostic ++ "\n", disk⟩

def defaultConfigPath (env : Environment) : String :=
  let home := (env.lookup "HOME").getD "/tmp"
  let inside := if home = "" ∨ home.toList.getLast? = some '/' then "" else "/"
  home ++ inside ++ ".sam/config.toml"

/-- Whether a path stands for the standard input: its only component is `-`. -/
def namesStdin (path : String) : Bool := Disk.components path = ["-"]

def act (env : Environment) (c : Config) (action : Action) : Result :=
  match action with
  | .parse input =>
    match if namesStdin input then env.stdin else env.disk.read input with
    | .ok text => ⟨0, listing text, "", env.disk⟩
    | .error e => failed (.disk e) env.disk ""
  | .config =>
    let heading := "# " ++ defaultConfigPath env ++ "\n"
    match c.toToml with
    | .ok toml => ⟨0, heading ++ toml, "", env.disk⟩
    | .error e => failed (.config e) env.disk heading
  | action =>
    match chatJob? c.options action with
    | none => ⟨0, "", "", env.disk⟩
    | some (chat, job) =>
      match Host.openFile env.disk chat with
      | .error e => failed (.host e) env.disk ""
      | .ok host =>
        let (r, console) := job.run.run ⟨"", ⟨host, env.now, []⟩⟩
        let disk := console.world.host.disk
        match r with
        | .ok () => ⟨0, console.printed, "", disk⟩
        | .error f => failed f disk console.printed

def usage : String := "Usage: sam [OPTIONS] <COMMAND>\n\nFor more information, try '--help'.\n"

def run (env : Environment) (args : List String) : Result :=
  match parse (env.lookup "SAM_CONFIG") args with
  | .error .version => ⟨0, "sam 0.1.0\n", "", env.disk⟩
  | .error (.help action) => ⟨0, helpText env.lookup action, "", env.disk⟩
  | .error .usage => ⟨2, "", usage, env.disk⟩
  | .ok invocation =>
    match Config.loadWith env.lookup env.disk (invocation.configPath.getD (defaultConfigPath env)) with
    | .error e => failed (.config e) env.disk ""
    | .ok c => act env c invocation.action

end Chronicle.Cli
