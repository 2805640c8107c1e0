import StepTrace.Assembly.Feature
import StepTrace.Assembly.Namespace
import StepTrace.Assembly.Step
import StepTrace.Assembly.Tagging
import StepTrace.Command.Arguments
import StepTrace.Command.Console
import StepTrace.Command.Perform
import StepTrace.Command.Summary
import StepTrace.Fault
import StepTrace.Files.Path
import StepTrace.Files.Tree
import StepTrace.Gherkin.Document
import StepTrace.Gherkin.File
import StepTrace.Gherkin.Line
import StepTrace.Gherkin.Place
import StepTrace.Gherkin.Reader
import StepTrace.Json.Reader
import StepTrace.Json.Writer
import StepTrace.Linking.Pass
import StepTrace.Linking.Pattern
import StepTrace.Main
import StepTrace.Manifest.Constant
import StepTrace.Manifest.File
import StepTrace.Manifest.Records
import StepTrace.Numeral.Binary64
import StepTrace.Numeral.Decimal
import StepTrace.Numeral.Digits
import StepTrace.Numeral.Integer
import StepTrace.Numeral.Shortest
import StepTrace.OrderedMap
import StepTrace.Outline.Explosion
import StepTrace.Outline.Placeholder
import StepTrace.Project.Batch
import StepTrace.Project.Run
import StepTrace.Project.Settings
import StepTrace.Proofs.Action
import StepTrace.Proofs.Batch.Integrity
import StepTrace.Proofs.Batch.Isolation
import StepTrace.Proofs.Batch.Outcomes
import StepTrace.Proofs.Build.Changes
import StepTrace.Proofs.Build.Containers
import StepTrace.Proofs.Build.Directories
import StepTrace.Proofs.Build.Ensures
import StepTrace.Proofs.Build.Exclusion
import StepTrace.Proofs.Build.Features
import StepTrace.Proofs.Build.Namespaces
import StepTrace.Proofs.Build.Outlines
import StepTrace.Proofs.Build.Placed
import StepTrace.Proofs.Build.Splicing
import StepTrace.Proofs.Build.Steps
import StepTrace.Proofs.Build.Tagging
import StepTrace.Proofs.Catalog
import StepTrace.Proofs.Identifier
import StepTrace.Proofs.Linking.Change
import StepTrace.Proofs.Linking.Exact
import StepTrace.Proofs.Linking.Interlinked
import StepTrace.Proofs.Linking.Inverse
import StepTrace.Proofs.Linking.Links
import StepTrace.Proofs.Linking.Reached
import StepTrace.Proofs.Linking.Run
import StepTrace.Proofs.Linking.Runners
import StepTrace.Proofs.Linking.Search
import StepTrace.Proofs.OrderedMap
import StepTrace.Proofs.Path
import StepTrace.Proofs.Registry.Builds
import StepTrace.Proofs.Registry.Invariant
import StepTrace.Proofs.Registry.Parts
import StepTrace.Proofs.Registry.Preserved
import StepTrace.Proofs.Registry.Wellformed
import StepTrace.Proofs.Rollback.Effect
import StepTrace.Proofs.Rollback.Kept
import StepTrace.Proofs.Rollback.Sessions
import StepTrace.Proofs.Store.Content
import StepTrace.Proofs.Store.Growth
import StepTrace.Proofs.Twins.Alike
import StepTrace.Proofs.Twins.Build
import StepTrace.Proofs.Twins.Exact
import StepTrace.Proofs.Twins.Follows
import StepTrace.Regex.Alternation
import StepTrace.Regex.CharSet
import StepTrace.Regex.Match
import StepTrace.Regex.Reader
import StepTrace.Regex.Syntax
import StepTrace.Text.Classes
import StepTrace.Text.CodeSet
import StepTrace.Text.Identifier
import StepTrace.Text.LetterCase
import StepTrace.Text.Printable
import StepTrace.Text.Quoted
import StepTrace.Text.Substring
import StepTrace.Trace.Arena
import StepTrace.Trace.Catalog
import StepTrace.Trace.Job
import StepTrace.Trace.Kind
import StepTrace.Trace.Name
import StepTrace.Trace.Record
import StepTrace.Trace.Snapshot
import StepTrace.Trace.Store
import StepTrace.Value.Access
import StepTrace.Value.Basic
import StepTrace.Value.Display
import StepTrace.Value.Moment
import StepTrace.View.Dot
import StepTrace.View.Export
import StepTrace.View.Graph
import StepTrace.Warning
import StepTrace.Yaml.Cursor
import StepTrace.Yaml.Document
import StepTrace.Yaml.Merge
import StepTrace.Yaml.Node
import StepTrace.Yaml.ReadNode
import StepTrace.Yaml.Reader
import StepTrace.Yaml.Refusal
import StepTrace.Yaml.Scalar
import StepTrace.Yaml.ScalarValue
import StepTrace.Yaml.Tag
import StepTrace.Yaml.Token
import StepTrace.Proofs.Batch.Alone
import StepTrace.Proofs.Batch.Gathered
import StepTrace.Proofs.Batch.Order
import StepTrace.Proofs.Linking.Unordered
import StepTrace.Proofs.Batch.AnyOrder
import StepTrace.Proofs.Batch.Again
import StepTrace.Proofs.Batch.Rebuild
import StepTrace.Proofs.Linking.Fresh
import StepTrace.Proofs.Orphans.Exact
import StepTrace.Proofs.Returns.Builds
import StepTrace.Proofs.View.Coherent
import StepTrace.Proofs.View.Mirror
import StepTrace.Proofs.View.Reading
import StepTrace.Proofs.Returns.Batches
import StepTrace.Proofs.Returns.Runs
import StepTrace.Proofs.Manifest.Expansion
import StepTrace.Proofs.Manifest.Groups
import StepTrace.Proofs.Manifest.Numbering
import StepTrace.Proofs.Manifest.Pieces
import StepTrace.Proofs.Manifest.Registered
import StepTrace.Proofs.Command.Reports
import StepTrace.Proofs.Linking.Unsearchable
import StepTrace.Proofs.Settings.Lossless
import StepTrace.Proofs.Registry.TwoOrders
import StepTrace.Proofs.Outline.Documents
import StepTrace.Proofs.Outline.InOrder
import StepTrace.Proofs.Batch.OneTree
import StepTrace.Proofs.Regex.Alternatives
import StepTrace.Proofs.Regex.Captures
import StepTrace.Proofs.Regex.Congruence
import StepTrace.Proofs.Regex.InStep
import StepTrace.Proofs.Regex.Loops
import StepTrace.Proofs.Regex.Meaning
import StepTrace.Proofs.Regex.Searches
import StepTrace.Proofs.Manifest.Refused
import StepTrace.Proofs.Outline.Simultaneous
import StepTrace.Proofs.Outline.Survivors
import StepTrace.Proofs.Linking.Failures
import StepTrace.Proofs.View.Displayed
import StepTrace.Proofs.Registry.Seniority
import StepTrace.Proofs.Manifest.Rounds
import StepTrace.Proofs.Settings.Exclusions
import StepTrace.Proofs.Manifest.Anchors
import StepTrace.Proofs.Linking.Slashes
import StepTrace.Proofs.Json.Holdable
import StepTrace.Proofs.Settings.Faithful
import StepTrace.Proofs.Settings.Accumulated
import StepTrace.Proofs.Command.Repeated
