import WordMachine.Main
import WordMachine.Puzzle.Reflection
import WordMachine.Puzzle.Teleporter
import WordMachine.Puzzle.Vault
import WordMachine.Proofs.SnapshotFormat
import WordMachine.Proofs.CommandEffect
import WordMachine.Proofs.Waiting
import WordMachine.Proofs.Stepping
import WordMachine.Proofs.FaultAtomicity
import WordMachine.Proofs.GuestInput
import WordMachine.Proofs.InstructionTable
import WordMachine.Proofs.ExecutionOrder
import WordMachine.Proofs.Reachability
import WordMachine.Proofs.Retelling
import WordMachine.Proofs.Likeness
import WordMachine.Proofs.FileReplacement
import WordMachine.Proofs.SavedState
import WordMachine.Proofs.Replay
import WordMachine.Proofs.TeleporterValues
import WordMachine.Proofs.CommandArguments
import WordMachine.Proofs.CommandOutcome
import WordMachine.Proofs.FaultKinds
import WordMachine.Proofs.ObservationTransparency
import WordMachine.Proofs.VaultSearch
import WordMachine.Proofs.CommandWords
import WordMachine.Proofs.AtomicReplacement
import WordMachine.Proofs.StoreArguments
import WordMachine.Proofs.Escapes
import WordMachine.Proofs.FileAside
import WordMachine.Proofs.TracedCommands
import WordMachine.Proofs.TracedInput
import WordMachine.Proofs.TraceLines
import WordMachine.Proofs.TraceTransparency
import WordMachine.Proofs.RemainingInput
import WordMachine.Proofs.RunComposition
import WordMachine.Proofs.StackFrames
import WordMachine.Proofs.WaitingOutcome
import WordMachine.Proofs.JobSetUp
import WordMachine.Proofs.InvocationOutcome
import WordMachine.Proofs.StoredLines
import WordMachine.Proofs.RememberedLines
import WordMachine.Proofs.MadeDirectories
import WordMachine.Proofs.HistoryFile
import WordMachine.Proofs.HistoryReopening
import WordMachine.Proofs.HistoryCompaction
import WordMachine.Proofs.SavingObstacles
import WordMachine.Proofs.TeleporterLevels
import WordMachine.Proofs.LineReading
import WordMachine.Proofs.MemoryTable
import WordMachine.Proofs.ImageDump
import WordMachine.Proofs.ChainedFeeds
