import TreeExport.CommandLine.Arguments
import TreeExport.CommandLine.Option
import TreeExport.CommandLine.Run
import TreeExport.Config.Basic
import TreeExport.Config.Toml
import TreeExport.Decimal.Binary64
import TreeExport.Decimal.Padded
import TreeExport.Decimal.Rounding
import TreeExport.Decimal.Shortest
import TreeExport.Dump.Alone
import TreeExport.Dump.Coordinator
import TreeExport.Dump.Download
import TreeExport.Dump.Run
import TreeExport.Dump.Step
import TreeExport.Dump.Storer
import TreeExport.Dump.Verdict
import TreeExport.Dump.Worker
import TreeExport.Entry
import TreeExport.EntryBatch
import TreeExport.Error
import TreeExport.Files.Basic
import TreeExport.Files.Path
import TreeExport.Files.Program
import TreeExport.Filter.Glob
import TreeExport.Filter.Regex
import TreeExport.Filter.Subtree
import TreeExport.Hash.Sha256
import TreeExport.Histogram
import TreeExport.Json.Lookup
import TreeExport.Json.Numeral
import TreeExport.Json.Reader
import TreeExport.Json.Text
import TreeExport.Json.Token
import TreeExport.Json.Value
import TreeExport.Json.Written
import TreeExport.Keyed
import TreeExport.Length
import TreeExport.Main
import TreeExport.Memory
import TreeExport.Moment
import TreeExport.Path
import TreeExport.Pool.Basic
import TreeExport.Pool.Call
import TreeExport.Queue
import TreeExport.Record.Basic
import TreeExport.Record.Batch
import TreeExport.Record.Reader
import TreeExport.Report
import TreeExport.Settings
import TreeExport.Source.Basic
import TreeExport.Source.JsonLines
import TreeExport.Source.Predefined
import TreeExport.Source.Request
import TreeExport.Statistics
import TreeExport.Store.Entry
import TreeExport.Store.Feed
import TreeExport.Store.Manifest
import TreeExport.Store.Merge
import TreeExport.Store.Passes
import TreeExport.Store.Reader
import TreeExport.Store.Sink
import TreeExport.Store.Writer
import TreeExport.Text.Blank
import TreeExport.Text.Hex
import TreeExport.Text.Quoted
import TreeExport.Text.Replace
import TreeExport.Text.Unprintable
import TreeExport.Text.Utf8
import TreeExport.Toml.Lexeme
import TreeExport.Toml.Numeral
import TreeExport.Toml.Reader
import TreeExport.Toml.Table
import TreeExport.Toml.Text
import TreeExport.Toml.Value
import TreeExport.Total
import TreeExport.Proofs.StableSort
import TreeExport.Proofs.Store.Reading
import TreeExport.Proofs.Store.Records
import TreeExport.Proofs.Decimal.Padded
import TreeExport.Proofs.Files.Changes
import TreeExport.Proofs.Store.Merging
import TreeExport.Proofs.Files.Tasks
import TreeExport.Proofs.Store.Names
import TreeExport.Proofs.Store.Passes
import TreeExport.Proofs.Store.Writing
import TreeExport.Proofs.Store.Opening
import TreeExport.Proofs.EntryBatch
import TreeExport.Proofs.Dump.Packing
import TreeExport.Proofs.Memory
import TreeExport.Proofs.Pool.Calls
import TreeExport.Proofs.Dump.Coordination
import TreeExport.Proofs.Dump.Worlds
import TreeExport.Proofs.Dump.Smooth
import TreeExport.Proofs.Dump.Relay
import TreeExport.Proofs.Dump.Bookkeeping
import TreeExport.Proofs.Dump.Stock
import TreeExport.Proofs.Dump.Progress
import TreeExport.Proofs.Dump.Downloading
import TreeExport.Proofs.Dump.Work
import TreeExport.Proofs.Dump.Liveness
import TreeExport.Proofs.Dump.Entries
import TreeExport.Proofs.Shares
import TreeExport.Proofs.Pool.Contents
import TreeExport.Proofs.Dump.Accounts
import TreeExport.Proofs.Dump.Storing
import TreeExport.Proofs.Dump.Flow
import TreeExport.Proofs.Dump.Completion
import TreeExport.Proofs.Dump.Blame
import TreeExport.Proofs.Dump.Outcome
import TreeExport.Proofs.Store.RoundTrip
import TreeExport.Proofs.Dump.Counts
import TreeExport.Proofs.Dump.Stream
import TreeExport.Proofs.Dump.Announcing
import TreeExport.Proofs.Dump.EndOfInput
import TreeExport.Proofs.Dump.Interrupts
import TreeExport.Proofs.Dump.Cancelling
import TreeExport.Proofs.Files.Breaks
import TreeExport.Proofs.Files.Making
import TreeExport.Proofs.Files.Removing
import TreeExport.Proofs.Store.Drafts
import TreeExport.Proofs.Store.Plans
import TreeExport.Proofs.Store.Closing
import TreeExport.Proofs.Store.Sessions
import TreeExport.Proofs.Store.Overlaps
import TreeExport.Proofs.Dump.Greedy
import TreeExport.Proofs.Dump.Journals
import TreeExport.Proofs.Dump.Settling
import TreeExport.Proofs.Settings
import TreeExport.Proofs.Source.Batching
import TreeExport.Proofs.Source.JsonLines
import TreeExport.Proofs.Source.Predefined
import TreeExport.Proofs.Source.Serving
import TreeExport.Proofs.Source.Lines
import TreeExport.Proofs.Keyed
import TreeExport.Proofs.Histogram
import TreeExport.Proofs.Statistics
import TreeExport.Proofs.Dump.Tallies
import TreeExport.Proofs.Dump.Judging
import TreeExport.Proofs.Dump.Books
import TreeExport.Proofs.Dump.Filtering
import TreeExport.Proofs.Memory.Advice
import TreeExport.Proofs.Memory.Words
import TreeExport.Proofs.Dump.Lengths
import TreeExport.Proofs.Filter.Regex
import TreeExport.Proofs.Filter.Glob
import TreeExport.Proofs.Path
import TreeExport.Proofs.Filter.Subtree
import TreeExport.Proofs.Entry.Payload
import TreeExport.Proofs.Answers
import TreeExport.Proofs.Entry.References
import TreeExport.Proofs.Dump.Labels
import TreeExport.Proofs.Json.Meaning
import TreeExport.Proofs.Record.Reading
import TreeExport.Proofs.Path.Ancestors
import TreeExport.Proofs.Store.Pieces
import TreeExport.Proofs.Store.Digests
import TreeExport.Proofs.Settings.Words
import TreeExport.Proofs.Source.Words
import TreeExport.Proofs.Dump.Reserve
