import Minilang.Arith
import Minilang.Build.Event
import Minilang.Build.Job
import Minilang.Build.Link
import Minilang.Build.Progress
import Minilang.Build.ProgressMode
import Minilang.Build.Request
import Minilang.Build.Run
import Minilang.Build.Site
import Minilang.Bytes
import Minilang.Cache.Payload
import Minilang.Cache.Store
import Minilang.ClassFile.Analysis
import Minilang.ClassFile.Assembler
import Minilang.ClassFile.Assembly
import Minilang.ClassFile.Class
import Minilang.ClassFile.Decode
import Minilang.ClassFile.Disassembly
import Minilang.ClassFile.Lower
import Minilang.ClassFile.Machine
import Minilang.ClassFile.ModifiedUtf8
import Minilang.ClassFile.Name
import Minilang.ClassFile.Opcode
import Minilang.ClassFile.Pool
import Minilang.ClassFile.Types
import Minilang.ClassFile.Writer
import Minilang.Command.Build
import Minilang.Command.Compile
import Minilang.Command.Duration
import Minilang.Command.Execute
import Minilang.Command.Flag
import Minilang.Command.Inspect
import Minilang.Command.Invocation
import Minilang.Command.Project
import Minilang.Command.Session
import Minilang.Command.Settings
import Minilang.Compile
import Minilang.Diagnostic.Bag
import Minilang.Diagnostic.Code
import Minilang.Diagnostic.Render
import Minilang.Digest
import Minilang.FaultKind
import Minilang.Files
import Minilang.Ir.Basic
import Minilang.Ir.Flaw
import Minilang.Ir.Lower
import Minilang.Ir.Machine
import Minilang.Ir.Read
import Minilang.Ir.Render
import Minilang.Load
import Minilang.Machine.Console
import Minilang.Machine.Fault
import Minilang.Main
import Minilang.Meaning
import Minilang.Path
import Minilang.Project.Manifest
import Minilang.Project.Scaffold
import Minilang.Proofs.AnalysisFrames
import Minilang.Proofs.ArenaContents
import Minilang.Proofs.ArenaForest
import Minilang.Proofs.ArtefactPlacement
import Minilang.Proofs.AssembledCode
import Minilang.Proofs.BuildIndependence
import Minilang.Proofs.BuildProgress
import Minilang.Proofs.BuildSchedules
import Minilang.Proofs.CacheKeys
import Minilang.Proofs.CacheTransparency
import Minilang.Proofs.ClassCorrectness
import Minilang.Proofs.ClassLowering
import Minilang.Proofs.ClassReading
import Minilang.Proofs.ClassRoundTrip
import Minilang.Proofs.ClassSimulation
import Minilang.Proofs.CodeLayout
import Minilang.Proofs.ConfigurationLines
import Minilang.Proofs.ConsistentTyping
import Minilang.Proofs.ConsoleReplay
import Minilang.Proofs.DecimalText
import Minilang.Proofs.Decoding
import Minilang.Proofs.Descriptors
import Minilang.Proofs.DiagnosticAccounts
import Minilang.Proofs.DraftRoundTrip
import Minilang.Proofs.EmittedIr
import Minilang.Proofs.EncodedText
import Minilang.Proofs.ErrorLimits
import Minilang.Proofs.EscapedText
import Minilang.Proofs.FaultLines
import Minilang.Proofs.FileNumbers
import Minilang.Proofs.FilePlacement
import Minilang.Proofs.FileTokens
import Minilang.Proofs.FileTrees
import Minilang.Proofs.GeneratedClass
import Minilang.Proofs.GrammarTrees
import Minilang.Proofs.Imitation
import Minilang.Proofs.InputReaders
import Minilang.Proofs.IrControlFlow
import Minilang.Proofs.IrCorrectness
import Minilang.Proofs.IrExpressions
import Minilang.Proofs.IrLines
import Minilang.Proofs.IrLowering
import Minilang.Proofs.IrMachineRuns
import Minilang.Proofs.IrNames
import Minilang.Proofs.IrSimulation
import Minilang.Proofs.IrText
import Minilang.Proofs.LabelDiscipline
import Minilang.Proofs.LanguageGrammar
import Minilang.Proofs.LatestEvents
import Minilang.Proofs.LinePositions
import Minilang.Proofs.LineTables
import Minilang.Proofs.LoadableArtefacts
import Minilang.Proofs.LoadedClass
import Minilang.Proofs.LongestLexemes
import Minilang.Proofs.LosslessDecoding
import Minilang.Proofs.LosslessTokens
import Minilang.Proofs.MachineRuns
import Minilang.Proofs.MainTyping
import Minilang.Proofs.MethodDescriptors
import Minilang.Proofs.NodeForest
import Minilang.Proofs.NodeWalks
import Minilang.Proofs.OutputPaths
import Minilang.Proofs.PackedPayload
import Minilang.Proofs.ParsedTrees
import Minilang.Proofs.ParserCompleteness
import Minilang.Proofs.ParserRuns
import Minilang.Proofs.ParserSoundness
import Minilang.Proofs.ParserTermination
import Minilang.Proofs.PlainText
import Minilang.Proofs.PoolBudget
import Minilang.Proofs.PoolInterning
import Minilang.Proofs.PoolOverflow
import Minilang.Proofs.PoolRepresentation
import Minilang.Proofs.PreciseTyping
import Minilang.Proofs.RealizedCode
import Minilang.Proofs.ResolvedPositions
import Minilang.Proofs.Results
import Minilang.Proofs.SameCode
import Minilang.Proofs.ScaffoldedManifests
import Minilang.Proofs.SizeLimits
import Minilang.Proofs.SpanNesting
import Minilang.Proofs.SsaForm
import Minilang.Proofs.StackDepths
import Minilang.Proofs.StackDiscipline
import Minilang.Proofs.StackShapes
import Minilang.Proofs.StepEncoding
import Minilang.Proofs.TreeOperations
import Minilang.Proofs.TreeText
import Minilang.Proofs.TruncatedClasses
import Minilang.Proofs.TypeAnalysis
import Minilang.Proofs.TypeRules
import Minilang.Proofs.UndefinedReferences
import Minilang.Proofs.ValidText
import Minilang.Proofs.VariableIndex
import Minilang.Proofs.VerifiedExecution
import Minilang.Proofs.VersionConditions
import Minilang.Proofs.WrittenClass
import Minilang.Script.Grammar
import Minilang.Script.Run
import Minilang.Semver.Constraint
import Minilang.Semver.Version
import Minilang.Source.File
import Minilang.Source.Span
import Minilang.Surroundings
import Minilang.Target
import Minilang.Text.Binary64
import Minilang.Text.Blank
import Minilang.Text.Cluster
import Minilang.Text.ClusterData
import Minilang.Text.Composed
import Minilang.Text.ComposedData
import Minilang.Text.Json
import Minilang.Text.Lower
import Minilang.Text.Number
import Minilang.Text.Paint
import Minilang.Text.Printable
import Minilang.Text.Quoted
import Minilang.Text.Ranges
import Minilang.Text.Utf8
import Minilang.Text.Width
import Minilang.Time
import Minilang.Timing
import Minilang.Token.Cursor
import Minilang.Token.Kind
import Minilang.Token.Listing
import Minilang.Token.Scan
import Minilang.Toml.Document
import Minilang.Toml.Read
import Minilang.Toml.Value
import Minilang.Trace.Activity
import Minilang.Trace.Event
import Minilang.Trace.Recorder
import Minilang.Trace.Tracer
import Minilang.Tree.Arena
import Minilang.Tree.Basic
import Minilang.Tree.Outline
import Minilang.Tree.Parse
import Minilang.Tree.Spans
import Minilang.Tree.Term
import Minilang.Tree.Walk
import Minilang.Variables
import Minilang.Version
