import JvmLint.Analysis
import JvmLint.App.Basic
import JvmLint.App.Health
import JvmLint.App.Past
import JvmLint.App.Report
import JvmLint.App.Run
import JvmLint.Architecture.Layer
import JvmLint.Architecture.Policy
import JvmLint.Archive.Basic
import JvmLint.Archive.Format
import JvmLint.Archive.Inflate
import JvmLint.Browser
import JvmLint.Bytecode.Descriptor
import JvmLint.Bytecode.Opcode
import JvmLint.Check.AbstractImplementation
import JvmLint.Check.Basic
import JvmLint.Check.DataType
import JvmLint.Check.Decorator
import JvmLint.Check.Duplication
import JvmLint.Check.Finding
import JvmLint.Check.Hierarchy
import JvmLint.Check.Hollywood
import JvmLint.Check.Lookup
import JvmLint.Check.Members
import JvmLint.Check.RedundantInterface
import JvmLint.Check.Registry
import JvmLint.Check.Strategy
import JvmLint.Check.SwallowedException
import JvmLint.Check.ThreeLayer
import JvmLint.Check.Unused
import JvmLint.ClassFile.Assembly
import JvmLint.ClassFile.Code
import JvmLint.ClassFile.ConstantPool
import JvmLint.ClassFile.Cursor
import JvmLint.ClassFile.Install
import JvmLint.ClassFile.Jar
import JvmLint.ClassFile.ModifiedUtf8
import JvmLint.ClassFile.Parse
import JvmLint.Classpath
import JvmLint.Cli.Command
import JvmLint.Cli.Complete
import JvmLint.Cli.Console
import JvmLint.Cli.Execute
import JvmLint.Cli.Flag
import JvmLint.Config.Basic
import JvmLint.Config.Fields
import JvmLint.Config.Load
import JvmLint.Config.Options
import JvmLint.Config.Paths
import JvmLint.Config.Prepare
import JvmLint.Config.Validate
import JvmLint.Decimal.Binary
import JvmLint.Decimal.Fixed
import JvmLint.Decimal.Shortest
import JvmLint.Fault
import JvmLint.Files.Basic
import JvmLint.Files.Replace
import JvmLint.Health.Address
import JvmLint.Health.Endpoint
import JvmLint.History.Basic
import JvmLint.History.Codec
import JvmLint.History.Store
import JvmLint.History.Tables
import JvmLint.History.Trend
import JvmLint.Input.Discover
import JvmLint.Input.Load
import JvmLint.JsonDoc
import JvmLint.Limiter
import JvmLint.Logging
import JvmLint.Machine
import JvmLint.Main
import JvmLint.Model.Access
import JvmLint.Model.Build
import JvmLint.Model.Class
import JvmLint.Model.Instruction
import JvmLint.Model.Name
import JvmLint.Path
import JvmLint.Pattern
import JvmLint.Pattern.Glob
import JvmLint.Pattern.GlobTree
import JvmLint.Proofs.Blanks
import JvmLint.Proofs.BuiltInChecks
import JvmLint.Proofs.ByteOrder
import JvmLint.Proofs.ClassImage
import JvmLint.Proofs.CodeStream
import JvmLint.Proofs.CountedFindings
import JvmLint.Proofs.Dedup
import JvmLint.Proofs.DescriptorGrammar
import JvmLint.Proofs.DirectReading
import JvmLint.Proofs.Discovery
import JvmLint.Proofs.Encoding
import JvmLint.Proofs.FirstAnswers
import JvmLint.Proofs.InertAttributes
import JvmLint.Proofs.InertMarkers
import JvmLint.Proofs.LayersAlone
import JvmLint.Proofs.Lookups
import JvmLint.Proofs.ModifiedUtf8
import JvmLint.Proofs.Padding
import JvmLint.Proofs.Outcomes
import JvmLint.Proofs.PathLaws
import JvmLint.Proofs.Reading
import JvmLint.Proofs.ReportColumns
import JvmLint.Proofs.TableRows
import JvmLint.Proofs.Tallies
import JvmLint.Proofs.TimeLines
import JvmLint.Proofs.RoundTrip
import JvmLint.Proofs.SharedLookups
import JvmLint.Proofs.SharedResolver
import JvmLint.Proofs.SharedWorkers
import JvmLint.Proofs.SideBySide
import JvmLint.Proofs.Truncation
import JvmLint.Proofs.WatchedInputs
import JvmLint.Record.App
import JvmLint.Record.Basic
import JvmLint.Record.Browser
import JvmLint.Record.Model
import JvmLint.Record.Options
import JvmLint.Record.Report
import JvmLint.Record.Sketch
import JvmLint.Report.Basic
import JvmLint.Report.File
import JvmLint.Report.Format
import JvmLint.Report.Markdown
import JvmLint.Report.Markers
import JvmLint.Report.Plain
import JvmLint.Report.Sarif
import JvmLint.Report.Structured
import JvmLint.Report.TrendText
import JvmLint.Report.Tsv
import JvmLint.Resolver
import JvmLint.Source
import JvmLint.Text.Blank
import JvmLint.Text.Columns
import JvmLint.Text.Commas
import JvmLint.Text.Letters
import JvmLint.Text.Number
import JvmLint.Text.Printable
import JvmLint.Text.Quoted
import JvmLint.Text.Search
import JvmLint.Time.Calendar
import JvmLint.Time.Duration
import JvmLint.Time.Timestamp
import JvmLint.Toml.Parse
import JvmLint.Toml.Scalar
import JvmLint.Toml.Value
import JvmLint.Total
import JvmLint.Uuid
import JvmLint.Watch.Batching
import JvmLint.Watch.Change
import JvmLint.Watch.ConfigFile
import JvmLint.Watch.Contents
import JvmLint.Watch.Filter
import JvmLint.Watch.Session
import JvmLint.Watch.Watcher
import JvmLint.XxHash
import JvmLint.Proofs.BadInputs
import JvmLint.Proofs.CalendarLaws
import JvmLint.Proofs.StoredTimes
import JvmLint.Proofs.StoreTables
import JvmLint.Proofs.KeptRuns
import JvmLint.Proofs.ProjectKeys
import JvmLint.Proofs.NewestFirst
import JvmLint.Proofs.AcceptedConfigs
import JvmLint.Proofs.BatchedChanges
import JvmLint.Proofs.WatchSessions
import JvmLint.Proofs.JumpTables
import JvmLint.Proofs.Hierarchies
import JvmLint.Proofs.ImpliedInterfaces
import JvmLint.Proofs.DeclaredRules
import JvmLint.Proofs.ShownFindings
import JvmLint.Proofs.CommonSubsequences
import JvmLint.Proofs.DeclarationOrder
import JvmLint.Proofs.NearestDeclarations
import JvmLint.Proofs.SharedHandlers
import JvmLint.Proofs.FieldWrites
import JvmLint.Proofs.ParameterSlots
import JvmLint.Proofs.Delegation
import JvmLint.Proofs.LayerMappings
import JvmLint.Proofs.SelectedChecks
import JvmLint.Proofs.NamedAnswers
import JvmLint.Proofs.AppearingTrees
import JvmLint.Proofs.KeptFailures
import JvmLint.Proofs.ScannedClasses
import JvmLint.Proofs.ScannedCode
import JvmLint.Proofs.KeywordOrder
import JvmLint.Proofs.LayerSpellings
import JvmLint.Proofs.FoundFiles
import JvmLint.Proofs.MarkedBlocks
import JvmLint.Proofs.NormalizedPaths
import JvmLint.Proofs.EncodedTexts
import JvmLint.Proofs.FindingPlaces
