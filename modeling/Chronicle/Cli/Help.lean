import Chronicle.Cli.Arguments
import Chronicle.Text.ControlSequence

/-!
# Help

The text that `--help` prints for the program and for each of its actions: what it does, how it is
called, and its actions, arguments and options in columns. Headings and the words to be typed are laid
out in bold, and all control sequences are left out in the end: one that the value of a variable
leaves open reaches up to the next bold word.
-/

namespace Chronicle.Cli

def Switch.form (s : Switch) : String :=
  let value := match s.kind with
    | .text | .path | .number => " <" ++ s.name.toUpper ++ ">"
    | .flag | .help | .version => ""
  let letter := s.letter.elim "    " fun c => Text.bold ("-" ++ String.singleton c) ++ ", "
  letter ++ Text.bold ("--" ++ s.name) ++ value

/-- What the option is for, with the present value of the variable that may stand for it. -/
def Switch.describe (lookup : String → Option String) (s : Switch) : String :=
  s.summary ++ s.envName.elim "" fun name => " [env: " ++ name ++ "=" ++ (lookup name).getD "" ++ "]"

/-- Two columns under a heading. The lines of a right entry stand one below the other. -/
def columns (heading : String) (rows : List (String × String)) : List String :=
  let width := (rows.map (Text.shownLength ·.1)).foldl max 0 + 4
  let indented (c : Char) : List Char := c :: if c = '\n' then List.replicate width ' ' else []
  ["", Text.bold heading] ++ rows.map fun (left, right) =>
    ("  " ++ left).pushn ' ' (width - 2 - Text.shownLength left) ++ .ofList (right.toList.flatMap indented)

/-- The lines of a help text; `action` and `call` are what follows the name of the program. -/
def helpLines (summary : String) (action : Option String) (call : String) (others : List String) :
    List String :=
  let name := Text.bold (" ".intercalate ("sam" :: action.toList))
  [summary, "", Text.bold "Usage:" ++ " " ++ name ++ " " ++ call] ++ others

def optionLines (lookup : String → Option String) (switches : List Switch) : List String :=
  columns "Options:" (switches.map fun s => (s.form, s.describe lookup))

def Offer.help (lookup : String → Option String) (o : Offer) : List String :=
  let arguments := o.argument.toList.map fun (name, summary) => ("<" ++ name.toUpper ++ ">", summary)
  let call := " ".intercalate ("[OPTIONS]" :: arguments.map (·.1))
  helpLines o.summary o.name call ((if arguments.isEmpty then [] else columns "Arguments:" arguments) ++
    optionLines lookup (o.switches ++ commonSwitches))

def helpSummary : String := "Print this message or the help of the given subcommand(s)"

def programHelp (lookup : String → Option String) : List String :=
  let rows := offers.map (fun o => (Text.bold o.name, o.summary)) ++ [(Text.bold helpAction, helpSummary)]
  helpLines "SAM — situational awareness manager for narrative chats" none "[OPTIONS] <COMMAND>"
    (columns "Commands:" rows ++ optionLines lookup rootSwitches)

def helpHelp : List String :=
  let argument := "[COMMAND]..."
  helpLines helpSummary helpAction argument
    (columns "Arguments:" [(argument, "Print help for the subcommand(s)")])

def helpText (lookup : String → Option String) (action : Option String) : String :=
  let lines : List String := match action with
    | none => programHelp lookup
    | some name => (offers.find? (·.name = name)).elim helpHelp (·.help lookup)
  Text.withoutSequences (String.join (lines.map (· ++ "\n")))

end Chronicle.Cli
