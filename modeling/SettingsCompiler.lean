import SettingsCompiler.Text.Quoted
import SettingsCompiler.Setting.Stamp
import SettingsCompiler.Header.Unit
import SettingsCompiler.Docs.Plain
import SettingsCompiler.Docs.Html
import SettingsCompiler.Decimal.Shortest
import SettingsCompiler.Json.Reader
import SettingsCompiler.Data.Node
import SettingsCompiler.Schema.Resolve
import SettingsCompiler.Schema.Reader
import SettingsCompiler.Workspace.Splice
import SettingsCompiler.Json.Dump
import SettingsCompiler.Yaml.Scalar
import SettingsCompiler.Yaml.Document
import SettingsCompiler.Command.Failure
import SettingsCompiler.Command.Config
import SettingsCompiler.Command.Plan
import SettingsCompiler.Command.Generate
import SettingsCompiler.Command.Inspect
import SettingsCompiler.Command.Arguments
import SettingsCompiler.Command.Invocation
import SettingsCompiler.Main
import SettingsCompiler.Shell.Regex
import SettingsCompiler.Shell.Pattern
import SettingsCompiler.Shell.Program
import SettingsCompiler.Proofs.Site
import SettingsCompiler.Proofs.Tabulation
import SettingsCompiler.Proofs.Ownership
import SettingsCompiler.Proofs.Layout
import SettingsCompiler.Proofs.Parity
import SettingsCompiler.Proofs.Resolution
import SettingsCompiler.Proofs.Shapes
import SettingsCompiler.Proofs.Reading
import SettingsCompiler.Proofs.Rows
import SettingsCompiler.Proofs.Progress
import SettingsCompiler.Proofs.Defaults
import SettingsCompiler.Proofs.Abbreviation
import SettingsCompiler.Proofs.Uniqueness
import SettingsCompiler.Proofs.Escaping
import SettingsCompiler.Proofs.Markup
import SettingsCompiler.Proofs.Splicing
import SettingsCompiler.Proofs.Persistence
import SettingsCompiler.Proofs.Regeneration
import SettingsCompiler.Proofs.Naming
import SettingsCompiler.Proofs.Identifiers
import SettingsCompiler.Proofs.Provenance
import SettingsCompiler.Proofs.Stamping
import SettingsCompiler.Proofs.Pruning
import SettingsCompiler.Proofs.Nesting
import SettingsCompiler.Proofs.Crowding
import SettingsCompiler.Proofs.Planning
import SettingsCompiler.Proofs.Quoting
import SettingsCompiler.Proofs.Commenting
import SettingsCompiler.Proofs.Linking
import SettingsCompiler.Proofs.Filling
import SettingsCompiler.Proofs.Commentary
import SettingsCompiler.Proofs.Margins
import SettingsCompiler.Proofs.Anchors
import SettingsCompiler.Proofs.Collisions
import SettingsCompiler.Proofs.Accounting
import SettingsCompiler.Proofs.Flaws
import SettingsCompiler.Proofs.ByteOrder
import SettingsCompiler.Proofs.Overriding
import SettingsCompiler.Proofs.Marks
import SettingsCompiler.Proofs.Slots
import SettingsCompiler.Proofs.Indifference
import SettingsCompiler.Proofs.Entities
