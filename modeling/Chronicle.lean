import Chronicle.Text.Blank
import Chronicle.Text.Search
import Chronicle.Text.Digits
import Chronicle.Json.Printer
import Chronicle.Json.Parser
import Chronicle.Number.Reading
import Chronicle.Path.Access
import Chronicle.Time.Reading
import Chronicle.State.Block
import Chronicle.Command.Interpreter
import Chronicle.Controller.Handlers
import Chronicle.Toml.Parser
import Chronicle.Config
import Chronicle.Main
import Chronicle.Proofs.Success
import Chronicle.Proofs.Occurrence
import Chronicle.Proofs.Blanks
import Chronicle.Proofs.BlockText
import Chronicle.Proofs.Calendar
import Chronicle.Proofs.Timestamps
import Chronicle.Proofs.LongYears
import Chronicle.Proofs.JsonParts
import Chronicle.Proofs.JsonLiterals
import Chronicle.Proofs.Rounding
import Chronicle.Proofs.NumberTexts
import Chronicle.Proofs.ShortestDecimals
import Chronicle.Proofs.BinaryValues
import Chronicle.Proofs.NearestNumbers
import Chronicle.Proofs.RoundedResults
import Chronicle.Proofs.ScaledNumbers
import Chronicle.Proofs.JsonRoundTrip
import Chronicle.Proofs.HiddenMarkers
import Chronicle.Proofs.Snapshots
import Chronicle.Proofs.RoundTargets
import Chronicle.Proofs.TokenGrammar
import Chronicle.Proofs.ByteSlices
import Chronicle.Proofs.TokenSpans
import Chronicle.Proofs.NumberGrammar
import Chronicle.Proofs.NumberFields
import Chronicle.Proofs.ParsedCommands
import Chronicle.Proofs.DisplayedCommands
import Chronicle.Proofs.TreeInvariants
import Chronicle.Proofs.CommandInvariants
import Chronicle.Proofs.SortedValues
import Chronicle.Proofs.StateInvariants
import Chronicle.Proofs.AbsentCharacters
import Chronicle.Proofs.Rescheduling
import Chronicle.Proofs.MarkerSafety
import Chronicle.Proofs.StoredStates
import Chronicle.Proofs.TwoReadings
import Chronicle.Proofs.Ledger
import Chronicle.Proofs.Schedules
import Chronicle.Proofs.DiskSaves
import Chronicle.Proofs.FileContents
import Chronicle.Proofs.ProgramRuns
import Chronicle.Proofs.HostCalls
import Chronicle.Proofs.HandlerRuns
import Chronicle.Proofs.Loading
import Chronicle.Proofs.Reopening
import Chronicle.Proofs.SimilarWorlds
import Chronicle.Proofs.OwnSnapshots
import Chronicle.Proofs.Watermarks
import Chronicle.Proofs.SkippedMessages
import Chronicle.Proofs.Regeneration
import Chronicle.Proofs.Faults
import Chronicle.Proofs.Retries
import Chronicle.Proofs.ChatFiles
import Chronicle.Proofs.IsolatedCommands
import Chronicle.Proofs.DeepWrites
import Chronicle.Proofs.Persistence
import Chronicle.Proofs.UnfailingRuns
import Chronicle.Proofs.NewestSnapshots
import Chronicle.Proofs.ProgramShapes
import Chronicle.Proofs.TouchedMessages
import Chronicle.Proofs.Interleavings
import Chronicle.Proofs.AssembledCommands
import Chronicle.Proofs.PathSteps
import Chronicle.Proofs.PathLens
import Chronicle.Proofs.InPlaceWrites
import Chronicle.Proofs.ApartPaths
import Chronicle.Proofs.WordTexts
import Chronicle.Proofs.PathGrammar
import Chronicle.Proofs.Respellings
import Chronicle.Proofs.IntegerFields
import Chronicle.Proofs.Counters
import Chronicle.Proofs.Versions
import Chronicle.Proofs.UnsavedChanges
import Chronicle.Proofs.JobRuns
import Chronicle.Proofs.FailedCommands
