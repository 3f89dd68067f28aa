import Chronicle.Config
import Chronicle.Controller.Outcome
import Chronicle.Text.Diagnostic

/-!
# Failures of the program

What ends a run with an error, and the diagnostic forms of errors and outcomes.
-/

namespace Chronicle
open Text

def PathError.diagnostic : PathError → String
  | empty => "Empty"
  | emptySegment path => recordOf "EmptySegment" [("path", quoteDiagnostic path)]
  | badIndex path => recordOf "BadIndex" [("path", quoteDiagnostic path)]
  | keyOnArray path key =>
    recordOf "KeyOnArray" [("path", quoteDiagnostic path), ("key", quoteDiagnostic key)]
  | indexTooLarge path index =>
    recordOf "IndexTooLarge" [("path", quoteDiagnostic path), ("index", toString index)]

def Keyword.diagnostic : Keyword → String
  | set => "Set"
  | add => "Add"
  | timedSet => "TimedSet"
  | responseSummary => "ResponseSummary"
  | cancelSet => "CancelSet"

def CommandError.diagnostic : CommandError → String
  | malformed keyword reason =>
    recordOf "Malformed" [("kind", keyword.diagnostic), ("reason", quoteDiagnostic reason.message)]
  | invalidTime text => caseOf "InvalidTime" (quoteDiagnostic text)
  | notFinite sum => caseOf "NonNumeric" (quoteDiagnostic sum)
  | path e => caseOf "Path" e.diagnostic

def CommandOutcome.diagnostic : CommandOutcome → String
  | applied => "Applied"
  | skipped reason => caseOf "Skipped" (quoteDiagnostic reason.message)
  | failed e => caseOf "Failed" e.diagnostic

def DiskError.kind : DiskError → String
  | missing => "NotFound"
  | occupied => "AlreadyExists"
  | notDirectory => "NotADirectory"
  | isDirectory => "IsADirectory"
  | nameTooLong => "InvalidFilename"
  | badCharacter => "InvalidInput"
  | noText => "InvalidData"

def DiskError.diagnostic (e : DiskError) : String :=
  let about := [("kind", e.kind), ("message", quoteDiagnostic e.reason)]
  match e.code? with
  | some n => recordOf "Os" (("code", toString n) :: about)
  | none => recordOf "Error" about

def HostError.diagnostic : HostError → String
  | messageOutOfRange index length =>
    recordOf "MessageOutOfRange" [("index", toString index), ("len", toString length)]
  | storage reason => caseOf "Storage" (quoteDiagnostic reason)
  | file trouble => caseOf "Storage" (quoteDiagnostic trouble.reason)
  | store reason => caseOf "Variables" (quoteDiagnostic reason)

def ConfigError.diagnostic (e : ConfigError) : String :=
  let about (path : String) := [("path", quoteDiagnostic path), ("reason", quoteDiagnostic e.reason)]
  match e with
  | unreadable path => recordOf "ReadError" (about path)
  | syntaxError path => recordOf "ParseError" (about path)
  | _ => caseOf "ValidationError" (quoteDiagnostic e.reason)

namespace Cli

inductive Failure where
  /-- The host refused a call of the program itself. -/
  | host (e : HostError)
  /-- The host refused a call of a handler. -/
  | handler (e : HostError)
  | config (e : ConfigError)
  | noMessages (chat : String)
  | disk (e : DiskError)
deriving DecidableEq, Repr

def Failure.diagnostic : Failure → String
  | host e => e.diagnostic
  | handler e => caseOf "Host" e.diagnostic
  | config e => e.diagnostic
  | noMessages chat => quoteDiagnostic (chat ++ " has no messages")
  | disk e => e.diagnostic

end Cli

end Chronicle
