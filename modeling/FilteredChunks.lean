import FilteredChunks.Main
import FilteredChunks.Json.Records
import FilteredChunks.Json.Render
import FilteredChunks.Queue.Monitor
import FilteredChunks.Sample.Plugin
import FilteredChunks.Sample.Source
import FilteredChunks.Sample.Store
import FilteredChunks.Proofs.Engine.RoundTrip
import FilteredChunks.Proofs.Pool.Callers
import FilteredChunks.Proofs.Pool.Workers
import FilteredChunks.Proofs.Pool.Accounts
import FilteredChunks.Proofs.Pool.Progress
import FilteredChunks.Proofs.Pool.Summary
import FilteredChunks.Proofs.Pool.ExactlyOnce
import FilteredChunks.Proofs.Pool.InOrder
import FilteredChunks.Proofs.Writer.Sequential
import FilteredChunks.Proofs.Pool.InTurn
import FilteredChunks.Proofs.Writer.Parallel
import FilteredChunks.Proofs.Store.Records
import FilteredChunks.Proofs.Store.Reopening
import FilteredChunks.Proofs.Queue.Fifo
import FilteredChunks.Proofs.Engine.Bounds
import FilteredChunks.Proofs.Filter.Lossless
import FilteredChunks.Proofs.Engine.Accepting
import FilteredChunks.Proofs.Queue.Waking
import FilteredChunks.Proofs.Command.Lossless
import FilteredChunks.Proofs.Registry.History
import FilteredChunks.Proofs.Engine.WellFormed
import FilteredChunks.Proofs.Engine.Tolerance
import FilteredChunks.Proofs.Engine.Marks
import FilteredChunks.Proofs.Table.Resolution
import FilteredChunks.Proofs.Writer.Prepared
import FilteredChunks.Proofs.Engine.Sources
import FilteredChunks.Proofs.Table.Snapshot
import FilteredChunks.Proofs.Table.Availability
import FilteredChunks.Proofs.Registry.Unregistering
import FilteredChunks.Proofs.Store.Scanner
import FilteredChunks.Proofs.Store.Cuts
import FilteredChunks.Proofs.Writer.Refusals
import FilteredChunks.Proofs.Registry.Barriers
import FilteredChunks.Proofs.Engine.Composition
import FilteredChunks.Proofs.Engine.Exclusion
import FilteredChunks.Proofs.Engine.Accounting
import FilteredChunks.Proofs.Engine.Discipline
import FilteredChunks.Proofs.Gating.Outcomes
import FilteredChunks.Proofs.Writer.Encoding
import FilteredChunks.Proofs.Engine.Corruption
import FilteredChunks.Proofs.Filter.Accumulators
import FilteredChunks.Proofs.Filter.Shuffle
import FilteredChunks.Proofs.Plugin.FirstMatch
import FilteredChunks.Proofs.Dataset.Tiling
import FilteredChunks.Proofs.Pipeline.FirstStep
import FilteredChunks.Proofs.Pipeline.Editing
import FilteredChunks.Proofs.Pipeline.Edits
import FilteredChunks.Proofs.Pipeline.History
import FilteredChunks.Proofs.Pool.Ledger
import FilteredChunks.Proofs.Pool.Pacing
import FilteredChunks.Proofs.Pool.Balance
import FilteredChunks.Proofs.Threads
