import Chronicle.Command.Basic
import Chronicle.Path.Basic

/-!
# What becomes of a command

A command of a batch is applied, skipped because it has nothing to act on, or fails. A report lists
the commands of a batch with their outcomes.
-/

namespace Chronicle

inductive CommandError where
  | malformed (keyword : Keyword) (reason : Malformation)
  | invalidTime (text : String)
  | notFinite (sum : String)
  | path (e : PathError)
deriving DecidableEq, Repr

inductive SkipReason where
  | valueNotNumeric (path : String)
  | deltaNotNumeric (delta : String)
  | nothingScheduled
  | noMatch (identifier : String)
deriving DecidableEq, Repr

inductive CommandOutcome where
  | applied
  | skipped (reason : SkipReason)
  | failed (e : CommandError)
deriving DecidableEq, Repr

def CommandError.message : CommandError → String
  | malformed keyword reason => s!"malformed {keyword.word} command: {reason.message}"
  | invalidTime text => s!"invalid schedule time '{text}'"
  | notFinite sum => s!"'{sum}' is not a number"
  | path e => "path error: " ++ e.message

def SkipReason.message : SkipReason → String
  | valueNotNumeric path => s!"current value at '{path}' is not numeric"
  | deltaNotNumeric delta => s!"'{delta}' is not a number"
  | nothingScheduled => "no scheduled writes"
  | noMatch identifier => s!"no scheduled write matches '{identifier}'"

abbrev Report := List (Command × CommandOutcome)

namespace Report

def applied (r : Report) : Nat := r.countP fun (_, o) => o matches .applied

def skipped (r : Report) : Nat := r.countP fun (_, o) => o matches .skipped _

def failed (r : Report) : Nat := r.countP fun (_, o) => o matches .failed _

def summary (r : Report) : String :=
  s!"{applied r} applied, {skipped r} skipped, {failed r} failed"

end Report

end Chronicle
