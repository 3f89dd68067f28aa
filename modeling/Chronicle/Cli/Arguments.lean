import Chronicle.Text.Digits

/-!
# Arguments of the command line

A command line names one action with its chat file and its options. Options have long names, some
also letters; letters may stand together, and a value may follow its option or be attached to it.
-/

namespace Chronicle.Cli

inductive Action where
  | process (chat : String) (index : Option Nat)
  | reload (chat : String) (index : Option Nat)
  | swipe (chat : String) (index choice : Option Nat)
  | edit (chat : String) (index : Option Nat) (text : Option String)
  | inspect (chat : String) (index : Option Nat) (canonical : Bool)
  | parse (input : String)
  | config
deriving DecidableEq, Repr

structure Invocation where
  verbose : Bool
  configPath : Option String
  action : Action
deriving DecidableEq, Repr

/-- Why no action is run: a question for the version or for help, or a command line that is none. -/
inductive Stop where
  | version
  /-- Help on an action, or on the whole program. -/
  | help (action : Option String)
  | usage
deriving DecidableEq, Repr

/-- What an option takes: nothing, a text, a path that is not empty, or a number. Two options take
nothing and stop the reading of the arguments. -/
inductive ValueKind where
  | flag | text | path | number
  | help | version
deriving DecidableEq, Repr

/-- An option. A variable of the environment may stand for it. -/
structure Switch where
  name : String
  letter : Option Char
  kind : ValueKind
  summary : String
  envName : Option String := none
deriving DecidableEq, Repr

/-- An action as it is offered: its name, what it does, its argument if it takes one, and its own
options. -/
structure Offer where
  name : String
  summary : String
  argument : Option (String × String)
  switches : List Switch
deriving DecidableEq, Repr

def offers : List Offer :=
  let chat := some ("chat", "Chat file")
  let named (name : String) (kind : ValueKind) (summary : String) : Switch :=
    { name, letter := none, kind, summary }
  let index (summary : String) : Switch := { named "index" .number summary with letter := some 'i' }
  [⟨"process", "Handle a finished generation: apply commands and embed the new state", chat,
      [index "Process this message instead of the newest one"]⟩,
    ⟨"reload", "Reload the canonical state from the chat's embedded blocks", chat,
      [index "Start the scan at this message instead of the newest generated one"]⟩,
    ⟨"swipe", "Handle a swipe, optionally switching the active swipe first", chat,
      [index "Swiped message (defaults to the newest)",
        named "to" .number "Make this swipe active before reloading"]⟩,
    ⟨"edit", "Handle an edit, optionally replacing the message text first", chat,
      [index "Edited message (defaults to the newest)",
        named "text" .text "New text for the message"]⟩,
    ⟨"inspect", "Print an embedded state (the latest one by default)", chat,
      [index "Read the block of this message only",
        named "canonical" .flag "Print the canonical variable store instead"]⟩,
    ⟨"parse", "List the commands in a text file (`-` for stdin)", some ("input", "Input file"), []⟩,
    ⟨"config", "Print the effective configuration as TOML", none, []⟩]

/-- The name of the action that prints help on an action, on itself, or on the program. -/
def helpAction : String := "help"

def commonSwitches : List Switch :=
  [{ name := "verbose", letter := some 'v', kind := .flag, summary := "Enable verbose logging" },
    { name := "config", letter := none, kind := .path, envName := some "SAM_CONFIG"
      summary := "Use this config file instead of ~/.sam/config.toml" },
    { name := "help", letter := some 'h', kind := .help, summary := "Print help" }]

def rootSwitches : List Switch :=
  commonSwitches ++ [{ name := "version", letter := some 'V', kind := .version, summary := "Print version" }]

structure Taken where
  values : List (String × String)
  arguments : List String

namespace Taken

def none : Taken := ⟨[], []⟩

def value? (t : Taken) (name : String) : Option String := t.values.lookup name

def number? (t : Taken) (name : String) : Option Nat := (t.value? name).bind fun s => Text.word? 10 s.toList

def isSet (t : Taken) (name : String) : Bool := (t.value? name).isSome

end Taken

def ValueKind.accepts (kind : ValueKind) (value : String) : Bool :=
  match kind with
  | .text => true
  | .path => value ≠ ""
  | .number => (Text.word? 10 value.toList).isSome
  | .flag | .help | .version => false

def Taken.add (t : Taken) (o : Switch) (value : String) : Except Stop Taken :=
  if t.isSet o.name ∨ !o.kind.accepts value then .error .usage
  else .ok { t with values := t.values ++ [(o.name, value)] }

/-- Records an option without a value; one that takes a value is left waiting for it. -/
def Taken.addBare (action : Option String) (t : Taken) (o : Switch) : Except Stop (Taken × Option Switch) :=
  match o.kind with
  | .help => .error (.help action)
  | .version => .error .version
  | .flag =>
    if t.isSet o.name then .error .usage else .ok ({ t with values := t.values ++ [(o.name, "")] }, .none)
  | _ => .ok (t, some o)

/-- What is read of a command line: the options before the name of the action, or those after it. -/
structure Part where
  action : Option String
  switches : List Switch
  /-- How many arguments there may be. -/
  room : Nat

/-- Reads letters that stand together. The letter of an option with a value takes all that follows. -/
def takeLetters (part : Part) (t : Taken) : List Char → Except Stop (Taken × Option Switch)
  | [] => .ok (t, none)
  | c :: rest =>
    match part.switches.find? (·.letter = some c) with
    | none => .error .usage
    | some o => do
      match ← t.addBare part.action o, rest with
      | (t, none), rest => takeLetters part t rest
      | (t, some o), [] => .ok (t, some o)
      | (t, some o), '=' :: value | (t, some o), value => (t.add o (.ofList value)).map (·, none)

def takeLong (part : Part) (t : Taken) (text : List Char) : Except Stop (Taken × Option Switch) :=
  let (name, value) := Text.cut (· ≠ '=') text
  match part.switches.find? fun o => o.name.toList = name, value with
  | none, _ => .error .usage
  | some o, [] => t.addBare part.action o
  | some o, _ :: value => (t.add o (.ofList value)).map (·, none)

/-- Reads a part of a command line. Before the action it ends at the first argument, and what is left
is returned too. `waiting` is the option whose value comes next. -/
def take (part : Part) (escaped : Bool) (waiting : Option Switch) (t : Taken) :
    List String → Except Stop (Taken × List String)
  | [] => if waiting.isSome then .error .usage else .ok (t, [])
  | arg :: rest =>
    match waiting, escaped, arg.toList with
    | some _, _, '-' :: _ :: _ => .error .usage
    | some o, _, _ => do take part escaped none (← t.add o arg) rest
    | none, false, ['-', '-'] => take part true none t rest
    | none, false, '-' :: '-' :: text => do
      let (t, waiting) ← takeLong part t text
      take part escaped waiting t rest
    | none, false, '-' :: c :: text => do
      let (t, waiting) ← takeLetters part t (c :: text)
      take part escaped waiting t rest
    | none, _, _ =>
      if part.action.isNone then if escaped then .error .usage else .ok (t, arg :: rest)
      else if arg = "" ∨ part.room ≤ t.arguments.length then .error .usage
      else take part escaped none { t with arguments := t.arguments ++ [arg] } rest

/-- The action with what has been read for it; an index and the canonical store exclude each other. -/
def Action.ofTaken? (name : String) (t : Taken) : Option Action :=
  let index := t.number? "index"
  match name, t.arguments with
  | "process", [chat] => some (.process chat index)
  | "reload", [chat] => some (.reload chat index)
  | "swipe", [chat] => some (.swipe chat index (t.number? "to"))
  | "edit", [chat] => some (.edit chat index (t.value? "text"))
  | "inspect", [chat] =>
    if index.isSome ∧ t.isSet "canonical" then none else some (.inspect chat index (t.isSet "canonical"))
  | "parse", [input] => some (.parse input)
  | "config", [] => some .config
  | _, _ => none

def helpStop : List String → Stop
  | [] => .help none
  | [name] => if name = helpAction ∨ offers.any (·.name = name) then .help (some name) else .usage
  | _ => .usage

/-- Reads a command line. Options for all actions may stand before and after the name of the action;
the variable of the environment counts where no configuration file is named. -/
def parse (configVariable : Option String) (args : List String) : Except Stop Invocation := do
  let (before, rest) ← take ⟨none, rootSwitches, 0⟩ false none .none args
  match rest with
  | [] => .error .usage
  | name :: rest =>
    match offers.find? (·.name = name) with
    | none => .error (if name = helpAction then helpStop rest else .usage)
    | some offer =>
      let room := offer.argument.elim 0 fun _ => 1
      let (after, _) ← take ⟨some name, commonSwitches ++ offer.switches, room⟩ false none .none rest
      if configVariable = some "" ∧ ¬(before.isSet "config" ∧ after.isSet "config") then .error .usage
      else
        match Action.ofTaken? name after with
        | none => .error .usage
        | some action =>
          .ok ⟨before.isSet "verbose" || after.isSet "verbose",
            (after.value? "config").or ((before.value? "config").or configVariable), action⟩

end Chronicle.Cli
