import ModalEdit.Editor.Completing
import ModalEdit.Editor.Highlighting
import ModalEdit.FileTree
import ModalEdit.Main
import ModalEdit.Session
import ModalEdit.Proofs.Coordinates
import ModalEdit.Proofs.Positions
import ModalEdit.Proofs.Changes
import ModalEdit.Proofs.Delivery
import ModalEdit.Proofs.EditedPositions
import ModalEdit.Proofs.DocumentRun
import ModalEdit.Proofs.NormalForm
import ModalEdit.Proofs.SelectionComponents
import ModalEdit.Proofs.UndoTimeline
import ModalEdit.Proofs.TrackerValidity
import ModalEdit.Proofs.CarriedSelections
import ModalEdit.Proofs.Evolution
import ModalEdit.Proofs.Passes
import ModalEdit.Proofs.IteratedPasses
import ModalEdit.Proofs.IterationVisits
import ModalEdit.Proofs.CommandMoves
import ModalEdit.Proofs.ObeyingActs
import ModalEdit.Proofs.ObeyingCommands
import ModalEdit.Proofs.MovingCommands
import ModalEdit.Proofs.ClientSlots
import ModalEdit.Proofs.TrackerFrame
import ModalEdit.Proofs.UnrecordedEdits
import ModalEdit.Proofs.RecordedEdits
import ModalEdit.Proofs.CarriedSlots
import ModalEdit.Proofs.ClientCustody
import ModalEdit.Proofs.ClientCalls
import ModalEdit.Proofs.KeyReplay
import ModalEdit.Proofs.DraftEditions
import ModalEdit.Proofs.EditionBalance
import ModalEdit.Proofs.Audience
import ModalEdit.Proofs.DraftTraces
import ModalEdit.Proofs.Layouts
import ModalEdit.Proofs.PerSelection
import ModalEdit.Proofs.InsertedTexts
import ModalEdit.Proofs.ErasedTexts
import ModalEdit.Proofs.ErasedCharacters
import ModalEdit.Proofs.KeyRoundTrips
import ModalEdit.Proofs.LinePieces
import ModalEdit.Proofs.LineReading
import ModalEdit.Proofs.JoinedLines
import ModalEdit.Proofs.TokenSpans
import ModalEdit.Proofs.UnfinishedLines
import ModalEdit.Proofs.QuotedCommands
import ModalEdit.Proofs.CompletedWords
import ModalEdit.Proofs.CompletedArguments
import ModalEdit.Proofs.AnnouncedEdits
import ModalEdit.Proofs.NamedEntries
import ModalEdit.Proofs.TableCalls
import ModalEdit.Proofs.HighlighterPaths
import ModalEdit.Proofs.OptionAssignments
import ModalEdit.Proofs.HookRegistrations
import ModalEdit.Proofs.OptionTexts
import ModalEdit.Proofs.OptionScopes
import ModalEdit.Proofs.OptionTypes
import ModalEdit.Proofs.WorldCalls
import ModalEdit.Proofs.OptionHistories
import ModalEdit.Proofs.KeyTexts
import ModalEdit.Proofs.TextLines
import ModalEdit.Proofs.LineIndexes
import ModalEdit.Proofs.Stepping
import ModalEdit.Proofs.OpenDocuments
import ModalEdit.Proofs.Lifecycles
import ModalEdit.Proofs.SessionRuns
import ModalEdit.Proofs.UndoneInsertions
import ModalEdit.Proofs.TypedTexts
import ModalEdit.Proofs.ListOptions
import ModalEdit.Proofs.PatternMatches
import ModalEdit.Proofs.LocalReading
import ModalEdit.Proofs.PatternSuffixes
import ModalEdit.Proofs.WholeMatches
import ModalEdit.Proofs.SelectionCalls
import ModalEdit.Proofs.AssignedSelections
import ModalEdit.Proofs.DebugOutput
import ModalEdit.Proofs.HighlighterReferences
import ModalEdit.Proofs.FileLocations
import ModalEdit.Proofs.GeneratedNames
import ModalEdit.Proofs.SortedTables
import ModalEdit.Proofs.ConfigEntries
import ModalEdit.Proofs.KeymapHistories
