import ImportAudit.Cache.Content
import ImportAudit.Cache.Result
import ImportAudit.CallLog
import ImportAudit.CommandLine.Command
import ImportAudit.CommandLine.Flag
import ImportAudit.CommandLine.Help
import ImportAudit.Index
import ImportAudit.Declaration
import ImportAudit.Discovery
import ImportAudit.Extraction
import ImportAudit.Fault
import ImportAudit.FileTree
import ImportAudit.Glob
import ImportAudit.Import.Lexeme
import ImportAudit.Import.Scan
import ImportAudit.Json
import ImportAudit.Json.Reading
import ImportAudit.Log
import ImportAudit.Main
import ImportAudit.Number.Binary
import ImportAudit.Number.Reading
import ImportAudit.Number.Shortest
import ImportAudit.Path
import ImportAudit.Program
import ImportAudit.Project
import ImportAudit.Proofs.AtomicRun
import ImportAudit.Proofs.Cache.Labels
import ImportAudit.Proofs.Cache.Operations
import ImportAudit.Proofs.Cache.Recency
import ImportAudit.Proofs.Cache.Shared
import ImportAudit.Proofs.Cache.Snapshots
import ImportAudit.Proofs.Cache.Truthful
import ImportAudit.Proofs.CheckedSettings
import ImportAudit.Proofs.Declaration
import ImportAudit.Proofs.DeclarationHeads
import ImportAudit.Proofs.Discovery
import ImportAudit.Proofs.Discovery.Membership
import ImportAudit.Proofs.Discovery.Names
import ImportAudit.Proofs.Discovery.Walk
import ImportAudit.Proofs.FileTree.Following
import ImportAudit.Proofs.FileTree.Growth
import ImportAudit.Proofs.FileTree.Order
import ImportAudit.Proofs.FileTree.Writing
import ImportAudit.Proofs.Fingerprint
import ImportAudit.Proofs.GrownProjects
import ImportAudit.Proofs.Import.ByteScan
import ImportAudit.Proofs.Import.ClauseReading
import ImportAudit.Proofs.Import.Grammar
import ImportAudit.Proofs.Import.Header
import ImportAudit.Proofs.Import.Layout
import ImportAudit.Proofs.Import.ModeAgreement
import ImportAudit.Proofs.Import.Places.Bounds
import ImportAudit.Proofs.Import.Places.Clause
import ImportAudit.Proofs.Import.Places.Lexeme
import ImportAudit.Proofs.Import.Places.Looks
import ImportAudit.Proofs.Import.Places.Walk
import ImportAudit.Proofs.Import.Reading
import ImportAudit.Proofs.Import.Shape
import ImportAudit.Proofs.Import.Specifiers
import ImportAudit.Proofs.Import.StatementScan
import ImportAudit.Proofs.Import.WalkClauses
import ImportAudit.Proofs.IndexAgreement
import ImportAudit.Proofs.Json.OneLine
import ImportAudit.Proofs.Json.Strings
import ImportAudit.Proofs.LoggedArguments
import ImportAudit.Proofs.Loop
import ImportAudit.Proofs.Matching
import ImportAudit.Proofs.Path.Ending
import ImportAudit.Proofs.Path.Joining
import ImportAudit.Proofs.Path.Relative
import ImportAudit.Proofs.Places
import ImportAudit.Proofs.PlainNames
import ImportAudit.Proofs.Report.JsonReading
import ImportAudit.Proofs.Report.TextReading
import ImportAudit.Proofs.ReportedNames
import ImportAudit.Proofs.Scan.Balance
import ImportAudit.Proofs.Scan.Concurrent
import ImportAudit.Proofs.Scan.Conservation
import ImportAudit.Proofs.Scan.Contents
import ImportAudit.Proofs.Scan.Filing
import ImportAudit.Proofs.Scan.Jobs
import ImportAudit.Proofs.Scan.Progress
import ImportAudit.Proofs.Scan.Reachable
import ImportAudit.Proofs.Scan.Schedule
import ImportAudit.Proofs.Scan.Slots
import ImportAudit.Proofs.Scan.WorkerMoves
import ImportAudit.Proofs.Source.Breaks
import ImportAudit.Proofs.Source.JoinedLines
import ImportAudit.Proofs.Strictness
import ImportAudit.Proofs.Text.ByteOrder
import ImportAudit.Proofs.Text.Bytes
import ImportAudit.Proofs.Text.Occurrence
import ImportAudit.Proofs.Text.Octets
import ImportAudit.Proofs.Text.Runs
import ImportAudit.Proofs.Text.Splitting
import ImportAudit.Proofs.ToolServer.Agreement
import ImportAudit.Proofs.ToolServer.Effects
import ImportAudit.Proofs.ToolServer.Serving
import ImportAudit.Proofs.Watching.Debounce
import ImportAudit.Proofs.Watching.Directories
import ImportAudit.Proofs.Watching.History
import ImportAudit.Proofs.Watching.Pending
import ImportAudit.Proofs.Watching.Removal
import ImportAudit.Proofs.WordSearch
import ImportAudit.Proofs.WordSearch.Passes
import ImportAudit.Report
import ImportAudit.Report.Summary
import ImportAudit.Scan.Build
import ImportAudit.Scan.Job
import ImportAudit.Scan.Pool
import ImportAudit.Settings
import ImportAudit.Settings.Conversion
import ImportAudit.Settings.Sources
import ImportAudit.Text.Search
import ImportAudit.Text.Lowercase
import ImportAudit.Text.Printable
import ImportAudit.Text.Quoted
import ImportAudit.Text.Separated
import ImportAudit.Text.Word
import ImportAudit.ToolServer
import ImportAudit.ToolServer.Handler
import ImportAudit.ToolServer.Message
import ImportAudit.ToolServer.Tool
import ImportAudit.Usage
import ImportAudit.Watcher
import ImportAudit.Watching
import ImportAudit.Yaml.Node
import ImportAudit.Yaml.Plain
import ImportAudit.Yaml.Reading
import ImportAudit.Yaml.Scalar
import ImportAudit.Yaml.Token
import ImportAudit.Yaml.Value
