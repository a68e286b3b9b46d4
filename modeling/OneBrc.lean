import OneBrc.Server.Persistence
import OneBrc.Server.ActiveSubmission
import OneBrc.Server.Ranking
import OneBrc.Server.Recovery
import OneBrc.Server.Representative
import OneBrc.Server.StatusMachine
import OneBrc.Server.WorkerLock
import OneBrc.Server.Query
import OneBrc.Server.Handlers
import OneBrc.Server.Privacy
import OneBrc.Server.Publication
import OneBrc.Server.Finality
import OneBrc.Lib.OrderedMap
import OneBrc.Web.Leaderboard
import OneBrc.Server.Replay
import OneBrc.Runner.Cancel
import OneBrc.Runner.Cancellation
import OneBrc.Lib.Decimal
import OneBrc.Lib.OpenAddressing
import OneBrc.Lib.Swar
import OneBrc.Analyzer.Contract
import OneBrc.Analyzer.Reference
import OneBrc.Analyzer.OptimizedGo
import OneBrc.Analyzer.FlatMap
import OneBrc.Analyzer.Tally
import OneBrc.Analyzer.Baseline
import OneBrc.Analyzer.Scan
import OneBrc.Analyzer.BaselineGo
import OneBrc.Analyzer.GoMap
import OneBrc.Analyzer.Expected
import OneBrc.Lib.BlockSearch
import OneBrc.Analyzer.BaselineRust
import OneBrc.Analyzer.OptimizedRust
import OneBrc.Server.Retry
import OneBrc.Server.Acceptance
import OneBrc.Server.RunnerSchema
import OneBrc.Lib.Rfc3339
import OneBrc.Server.Manifest
import OneBrc.Server.ManifestSchema
import OneBrc.Server.Releases
import OneBrc.Lib.PercentEncoding
import OneBrc.Server.Downloads
import OneBrc.Analyzer.Cells
import OneBrc.Analyzer.BaselineRuby
import OneBrc.Analyzer.OptimizedRuby
import OneBrc.Analyzer.BaselineTypeScript
import OneBrc.Analyzer.OptimizedTypeScript
import OneBrc.Server.LoopOwner
import OneBrc.Server.Numbering
import OneBrc.Server.Service
import OneBrc.Server.UploadForms
import OneBrc.Server.MigrationRuns
import OneBrc.Analyzer.BaselineCReport
import OneBrc.Analyzer.MphLookup
import OneBrc.Analyzer.TailDecode
import OneBrc.Runner.Blame
import OneBrc.Server.PlainNames
import OneBrc.Server.StoredTexts
import OneBrc.Analyzer.DirectIds
import OneBrc.Analyzer.TwoDecimals
import OneBrc.Analyzer.ZigReads
import OneBrc.Data.ChannelPaths
import OneBrc.Data.ContestFiles
import OneBrc.Data.Files
import OneBrc.Data.Generate
import OneBrc.Data.Generator
import OneBrc.Data.Importable
import OneBrc.Data.Prefix
import OneBrc.Data.Tiers
import OneBrc.Server.Authentication
import OneBrc.Analyzer.GoTables
import OneBrc.Runner.InputCache
import OneBrc.Analyzer.KeyWords
import OneBrc.Analyzer.Chunks
import OneBrc.Analyzer.BaselineCsharp
import OneBrc.Analyzer.ArenaMap
import OneBrc.Analyzer.OptimizedCsharp
import OneBrc.Server.Rows
import OneBrc.Server.Runs
import OneBrc.Server.Sources
import OneBrc.Analyzer.BaselineCpp
import OneBrc.Analyzer.BaselineZig
import OneBrc.Analyzer.Baselines
import OneBrc.Lib.Base64
import OneBrc.Server.AccessKeys
import OneBrc.Server.Streams
import OneBrc.Runner.Measure
import OneBrc.Data.Transfer
import OneBrc.Data.Delivery
import OneBrc.Data.Judged
import OneBrc.Data.Verdicts
import OneBrc.Lib.JsonNumber
