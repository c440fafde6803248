import Nblex.Misc.Word64
import Nblex.Misc.CString
import Nblex.Misc.GapRuns
import Nblex.Misc.OrderStatistics
import Nblex.Misc.WindowJoin
import Nblex.Misc.Isolation
import Nblex.Misc.Upsert
import Nblex.Json
import Nblex.Core.FilterEngine.Syntax
import Nblex.Core.FilterEngine.Parser
import Nblex.Core.FilterEngine.Eval
import Nblex.NblexInternal
import Nblex.Correlation.TimeCorrelation
import Nblex.Core.NblexEvent
import Nblex.Parsers.NqlQuery
import Nblex.Core.NqlExecutor.Buckets
import Nblex.Core.NqlExecutor.Aggregate
import Nblex.Core.NqlExecutor.Correlate
import Nblex.Core.NqlExecutor.Proofs.WellFormed
import Nblex.Core.NqlExecutor.Proofs.GroupKeys
import Nblex.Core.NqlExecutor.Proofs.GroupViews
import Nblex.Core.NqlExecutor.Proofs.GroupIsolation
import Nblex.Core.NqlExecutor.Proofs.SlidingWindow
import Nblex.Core.NqlExecutor.Proofs.TumblingFlush
import Nblex.Core.NqlExecutor.Proofs.SessionWindow
import Nblex.Core.NqlExecutor.Proofs.Accumulators
import Nblex.Core.NqlExecutor.Proofs.Interference
import Nblex.Core.NqlExecutor.Proofs.CorrelatePairs
import Nblex.Correlation.Proofs.Pairs
import Nblex.Correlation.Proofs.Cleanup
import Nblex.Correlation.Proofs.LossyRuns
import Nblex.Core.NqlExecutor.Execute
import Nblex.Core.NqlExecutor.Proofs.OwnState
import Nblex.Core.NqlExecutor.Proofs.QueryIsolation
import Nblex.Misc.Lines
import Nblex.Misc.Lockstep
import Nblex.Input.FileInput
import Nblex.Input.Proofs.TailedLines
import Nblex.Input.LogLines
import Nblex.Input.Proofs.LogLines
import Nblex.Input.Proofs.RecordFiles
import Nblex.Output.JsonOutput
import Nblex.Core.FilterEngine.Proofs.Atoms
import Nblex.Core.FilterEngine.Proofs.Chains
import Nblex.Core.FilterEngine.Proofs.Groups
import Nblex.Core.NqlExecutor.Proofs.FieldPaths
import Nblex.Core.NqlExecutor.Proofs.FilterEarly
import Nblex.Parsers.NqlParser
import Nblex.Core.FilterEngine.Proofs.Spaces
import Nblex.Parsers.Proofs.FilterScan
import Nblex.Parsers.Proofs.QueryText
import Nblex.Parsers.Proofs.Reading
import Nblex.Parsers.Proofs.Roundtrip
import Nblex.Misc.Loop
import Nblex.Parsers.LogfmtParser
import Nblex.Parsers.Proofs.LogfmtTermination
import Nblex.Parsers.DnsParser
import Nblex.Parsers.Proofs.DnsNames
import Nblex.Parsers.Proofs.DnsTermination
import Nblex.Core.Config.Loader
import Nblex.Core.Config.Document
import Nblex.Core.Config.Proofs.Values
import Nblex.Core.Config.Proofs.Mappings
import Nblex.Core.Config.Proofs.Sections
import Nblex.Core.Config.Proofs.Losses
import Nblex.Core.Config.Proofs.SectionOrder
import Nblex.Core.Config.Proofs.LoadsExactly
import Nblex.Core.NqlExecutor.Proofs.TumblingWindows
import Nblex.Core.NqlExecutor.Proofs.TumblingClash
import Nblex.Core.NqlExecutor.Proofs.PipelineFlow
import Nblex.Core.EventOwnership
import Nblex.Core.Proofs.EventReleases
import Nblex.Core.NblexWorld
import Nblex.Core.Proofs.HandleDiscipline
import Nblex.Core.Config.Apply
import Nblex.Core.Proofs.StartFailure
import Nblex.Core.Config.Proofs.InputList
import Nblex.Core.NqlExecutor.Process
import Nblex.Core.NqlExecutor.Proofs.WorldReuse
import Nblex.Cli.Main
import Nblex.Cli.Proofs.QueryOutput
import Nblex.Misc.Exposition
import Nblex.Output.MetricsOutput
import Nblex.Output.Proofs.MetricLines
import Nblex.Output.Proofs.MetricsFile
import Nblex.Misc.Directory
import Nblex.Output.FileOutput
import Nblex.Output.Proofs.FileRotation
import Nblex.Misc.Recorded
import Nblex.Input.PcapInput
import Nblex.Input.Frames
import Nblex.Input.Proofs.PacketBounds
import Nblex.Input.Proofs.Frames
import Nblex.Input.PacketEvents
import Nblex.Input.Proofs.PacketEvents
import Nblex.Parsers.DnsReads
import Nblex.Parsers.Proofs.DnsBounds
import Nblex.Misc.ByteMemory
import Nblex.Parsers.DnsEncoding
import Nblex.Parsers.Proofs.DnsRecords
import Nblex.Core.NqlExecutor.Divisions
import Nblex.Core.NqlExecutor.Proofs.ZeroDivisors
import Nblex.Core.NqlExecutor.Proofs.RunningCounts
import Nblex.Misc.KeyedUpsert
import Nblex.Core.NqlExecutor.Proofs.ArrivalOrder
import Nblex.Core.NqlExecutor.KeyOwnership
import Nblex.Core.NqlExecutor.Proofs.KeyArrays
import Nblex.Core.NqlExecutor.Proofs.SelfPairs
import Nblex.Core.NqlExecutor.Proofs.CleanupWindow
import Nblex.Core.Config.Proofs.DisabledCorrelation
import Nblex.Core.NqlExecutor.FlushWalk
import Nblex.Core.NqlExecutor.Proofs.ExpiredBuckets
import Nblex.Parsers.Proofs.LogfmtRoundTrip
import Nblex.Parsers.HttpParser
import Nblex.Parsers.Proofs.HttpRequests
import Nblex.Parsers.NginxParser
import Nblex.Parsers.Proofs.AccessRecords
import Nblex.Misc.Scanf
import Nblex.Parsers.SyslogParser
import Nblex.Parsers.Proofs.SyslogRecords
import Nblex.Core.FilterEngine.BpfPushdown
import Nblex.Core.FilterEngine.Proofs.PushedAtoms
import Nblex.Core.Config.ForeignKeys
import Nblex.Core.Config.Proofs.InertKeys
import Nblex.Core.FilterEngine.Grammar
import Nblex.Core.FilterEngine.Proofs.Rejections
import Nblex.Correlation.EventBuffers
import Nblex.Correlation.Proofs.EventBuffers
import Nblex.Core.NqlExecutor.CountedEvents
import Nblex.Core.NqlExecutor.Proofs.SessionExtent
import Nblex.Core.NqlExecutor.ExchangeSort
import Nblex.Core.NqlExecutor.Proofs.PercentileRank
import Nblex.Core.NqlExecutor.DistinctCount
import Nblex.Core.NqlExecutor.Proofs.MetricNames
import Nblex.Core.NqlExecutor.Proofs.DistinctReports
import Nblex.Core.NqlExecutor.Proofs.GroupSeparation
import Nblex.Core.NqlExecutor.Proofs.DottedPaths
import Nblex.Parsers.Proofs.DurationTexts
import Nblex.Misc.TerminatedText
import Nblex.Misc.Numerals
import Nblex.Misc.BoundedText
import Nblex.Misc.Qsort
import Nblex.Core.FilterEngine.FilterReads
import Nblex.Core.FilterEngine.Proofs.FilterReads
import Nblex.Parsers.NqlReads
import Nblex.Parsers.Proofs.NqlReads
import Nblex.Parsers.Proofs.NqlWords
import Nblex.Parsers.Proofs.AcceptedQueries
import Nblex.Core.FilterEngine.Proofs.NamedTerms
import Nblex.Core.FilterEngine.Proofs.PrintedAtoms
import Nblex.Core.FilterEngine.Proofs.NumberFilters
import Nblex.Core.FilterEngine.Proofs.PatternFilters
import Nblex.Core.FilterEngine.Proofs.EscapedStrings
import Nblex.Core.FilterEngine.Proofs.ListFilters
import Nblex.Core.FilterEngine.WordFilters
import Nblex.Core.FilterEngine.Proofs.WordFilters
import Nblex.Parsers.Proofs.DnsChains
import Nblex.Parsers.Proofs.HttpStatus
import Nblex.Parsers.HttpReads
import Nblex.Parsers.Proofs.HttpReads
import Nblex.Output.RotatedFiles
import Nblex.Output.Proofs.RotatedFiles
import Nblex.Output.Proofs.WrittenEvents
import Nblex.Output.Proofs.MetricSeries
import Nblex.Parsers.Proofs.LogfmtEscapes
import Nblex.Misc.Calendar
import Nblex.Parsers.Proofs.SyslogInstants
