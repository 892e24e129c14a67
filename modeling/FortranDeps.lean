import FortranDeps.Build.DependencyGraph
import FortranDeps.Build.Digraph
import FortranDeps.Build.Listing
import FortranDeps.Build.ObjectName
import FortranDeps.Build.Resolution
import FortranDeps.Build.SymbolIndex
import FortranDeps.Command.Arguments
import FortranDeps.Command.Request
import FortranDeps.Command.Run
import FortranDeps.Counting
import FortranDeps.Diagnostic
import FortranDeps.Discovery
import FortranDeps.Files.Changes
import FortranDeps.Files.Staging
import FortranDeps.Files.Tree
import FortranDeps.Files.Walk
import FortranDeps.Glob.Mark
import FortranDeps.Glob.Parser
import FortranDeps.Glob.Pattern
import FortranDeps.JsonValue
import FortranDeps.Main
import FortranDeps.Path
import FortranDeps.Preprocess.Block
import FortranDeps.Preprocess.Directive
import FortranDeps.Preprocess.Evaluation
import FortranDeps.Preprocess.Expansion
import FortranDeps.Preprocess.Inclusion
import FortranDeps.Preprocess.Level
import FortranDeps.Preprocess.MacroTable
import FortranDeps.Preprocess.Pass
import FortranDeps.Project
import FortranDeps.Proofs.Build.Clashes
import FortranDeps.Proofs.Build.Closure
import FortranDeps.Proofs.Build.CompileOrder
import FortranDeps.Proofs.Build.Cycle
import FortranDeps.Proofs.Build.CycleSearch
import FortranDeps.Proofs.Build.FirstMention
import FortranDeps.Proofs.Build.GraphShape
import FortranDeps.Proofs.Build.Listing
import FortranDeps.Proofs.Build.Order
import FortranDeps.Proofs.Build.Resolution
import FortranDeps.Proofs.Build.Schedule
import FortranDeps.Proofs.Build.Ties
import FortranDeps.Proofs.Build.UseAccounting
import FortranDeps.Proofs.Command.WrittenSource
import FortranDeps.Proofs.Discovery.Gathering
import FortranDeps.Proofs.Discovery.OrderedUnion
import FortranDeps.Proofs.Discovery.WalkOrder
import FortranDeps.Proofs.Files.Custody
import FortranDeps.Proofs.Files.Descent
import FortranDeps.Proofs.Files.Desk
import FortranDeps.Proofs.Files.Landing
import FortranDeps.Proofs.Files.PathOrder
import FortranDeps.Proofs.Files.Paths
import FortranDeps.Proofs.Files.Removal
import FortranDeps.Proofs.Files.Rereading
import FortranDeps.Proofs.Files.Spelling
import FortranDeps.Proofs.Files.Staging
import FortranDeps.Proofs.Files.Walking
import FortranDeps.Proofs.Loop
import FortranDeps.Proofs.Preprocess.Acceptance
import FortranDeps.Proofs.Preprocess.Agreement
import FortranDeps.Proofs.Preprocess.Balance
import FortranDeps.Proofs.Preprocess.BareFlags
import FortranDeps.Proofs.Preprocess.BlockSearch
import FortranDeps.Proofs.Preprocess.BlockTree
import FortranDeps.Proofs.Preprocess.ByteScan
import FortranDeps.Proofs.Preprocess.Consumption
import FortranDeps.Proofs.Preprocess.Depth
import FortranDeps.Proofs.Preprocess.DirectiveText
import FortranDeps.Proofs.Preprocess.Discarded
import FortranDeps.Proofs.Preprocess.Emission
import FortranDeps.Proofs.Preprocess.Evaluation
import FortranDeps.Proofs.Preprocess.Frames
import FortranDeps.Proofs.Preprocess.Idempotence
import FortranDeps.Proofs.Preprocess.Inlining
import FortranDeps.Proofs.Preprocess.Lexemes
import FortranDeps.Proofs.Preprocess.Lookups
import FortranDeps.Proofs.Preprocess.MissedFiles
import FortranDeps.Proofs.Preprocess.Nesting
import FortranDeps.Proofs.Preprocess.Origins
import FortranDeps.Proofs.Preprocess.Parts
import FortranDeps.Proofs.Preprocess.Provenance
import FortranDeps.Proofs.Preprocess.Relevance
import FortranDeps.Proofs.Preprocess.Seeding
import FortranDeps.Proofs.Preprocess.SingleLines
import FortranDeps.Proofs.Preprocess.Survey
import FortranDeps.Proofs.Preprocess.Termination
import FortranDeps.Proofs.Preprocess.Tokens
import FortranDeps.Proofs.Preprocess.Walk
import FortranDeps.Proofs.Project.CircularRules
import FortranDeps.Proofs.Project.DiscoveryOrder
import FortranDeps.Proofs.Project.Edges
import FortranDeps.Proofs.Project.ErrorModes
import FortranDeps.Proofs.Project.Failures
import FortranDeps.Proofs.Project.FileOrder
import FortranDeps.Proofs.Project.Outputs
import FortranDeps.Proofs.Project.Overwriting
import FortranDeps.Proofs.Project.Prerequisites
import FortranDeps.Proofs.Project.Reporting
import FortranDeps.Proofs.Project.Stages
import FortranDeps.Proofs.Project.Writing
import FortranDeps.Proofs.Text.ByteOrder
import FortranDeps.Proofs.Text.LetterCase
import FortranDeps.Proofs.Text.Lines
import FortranDeps.Proofs.Text.Pattern
import FortranDeps.Proofs.Text.Runs
import FortranDeps.Proofs.Text.Utf8
import FortranDeps.Proofs.Units.EdgeOrigin
import FortranDeps.Proofs.Units.Grammar
import FortranDeps.Proofs.Units.LetterCase
import FortranDeps.Proofs.Units.Recognition
import FortranDeps.Proofs.Units.Rescan
import FortranDeps.Settings
import FortranDeps.Settings.File
import FortranDeps.Source.Line
import FortranDeps.Text.Blank
import FortranDeps.Text.LowerCase
import FortranDeps.Text.Split
import FortranDeps.Text.WordChar
import FortranDeps.Units.Declaration
import FortranDeps.Units.Scan
import FortranDeps.Units.Statement
import FortranDeps.Yaml.Character
import FortranDeps.Yaml.Document
import FortranDeps.Yaml.Fault
import FortranDeps.Yaml.Gap
import FortranDeps.Yaml.Lexer
import FortranDeps.Yaml.Record
import FortranDeps.Yaml.Scalar.Block
import FortranDeps.Yaml.Scalar.Plain
import FortranDeps.Yaml.Scalar.Quoted
import FortranDeps.Yaml.Token
