import Chronicle.Cli.Run
import Std.Time.DateTime.Timestamp

/-!
# The command line

Reads the files that a command line names, runs it, writes the files that have changed, and prints
what it results in.
-/

namespace Chronicle.Cli

def look (path : String) : IO (Option Entry) := do
  try return some (.file (some (← IO.FS.readFile path)))
  catch
    | .inappropriateType _ 21 _ => return some .directory
    | .inappropriateType .. | .noFileOrDirectory .. => return none
    | _ => return some (.file none)

/-- Adds to a disk what stands where a path leads, and on the way there. -/
def explore (disk : Disk) (path : String) : IO Disk := do
  let mut disk := disk
  let mut place : Place := []
  let mut way : List String := []
  for name in Disk.steps path do
    place := place.go name
    way := way ++ [name]
    if let some e ← look (Disk.pathOf way) then disk := disk.put place e
  return disk

/-- Reads a stream to its end. -/
partial def readToEnd (input : IO.FS.Stream) (text : String) : IO String := do
  let line ← input.getLine
  if line.isEmpty then return text
  readToEnd input (text ++ line)

def readStdin : IO (Except DiskError String) := do
  try return .ok (← readToEnd (← IO.getStdin) "")
  catch _ => return .error .noText

def Action.usesStdin : Action → Bool
  | .parse input => namesStdin input
  | _ => false

/-- The file that an action reads, apart from its settings. -/
def Action.file? : Action → Option String
  | .process chat _ | .reload chat _ | .swipe chat _ _ | .edit chat _ _ | .inspect chat _ _ => some chat
  | .parse input => if namesStdin input then none else some input
  | .config => none

/-- Makes the directories and writes the files that differ from those of `before`. -/
def writeChanges (before after : Disk) : IO Unit := do
  let changes := after.entries.filter fun (place, e) => before.entries.lookup place ≠ some e
  for (place, e) in changes do
    if e = .directory then IO.FS.createDirAll (Disk.pathOf place.reverse)
  for (place, e) in changes do
    if let .file (some text) := e then IO.FS.writeFile (Disk.pathOf place.reverse) text

def main (args : List String) : IO UInt32 := do
  let names := ["HOME", "SAM_CONFIG", "SAM_LOG_LEVEL", "SAM_KEEP_COMMANDS"]
  let known ← names.filterMapM fun name => return (← IO.getEnv name).map (name, ·)
  let nanos := (← Std.Time.Timestamp.now).toNanosecondsSinceUnixEpoch.val
  let now : Instant := ⟨nanos / Instant.nanosPerSecond, (nanos % Instant.nanosPerSecond).toNat⟩
  let env : Environment := ⟨.empty, .ok "", fun name => List.lookup name known, now⟩
  let (paths, usesStdin) := match parse (env.lookup "SAM_CONFIG") args with
    | .ok i => (i.configPath.getD (defaultConfigPath env) :: i.action.file?.toList, i.action.usesStdin)
    | .error _ => ([], false)
  let disk ← paths.foldlM explore env.disk
  let stdin ← if usesStdin then readStdin else pure (.ok "")
  let result := run { env with disk, stdin } args
  writeChanges disk result.disk
  IO.print result.stdout
  IO.eprint result.stderr
  return result.code.toUInt32

end Chronicle.Cli

def main (args : List String) : IO UInt32 := Chronicle.Cli.main args
