import DesignTokens.Build.CommandLine
import DesignTokens.Build.Disk
import DesignTokens.Build.FileName
import DesignTokens.Build.Format
import DesignTokens.Build.Manifest
import DesignTokens.Build.MemoryDisk
import DesignTokens.Build.Plan
import DesignTokens.Build.Run
import DesignTokens.Document.Basic
import DesignTokens.Document.Edit
import DesignTokens.Document.Merge
import DesignTokens.Entries
import DesignTokens.Json.Number
import DesignTokens.Json.Reader
import DesignTokens.Json.Writer
import DesignTokens.Main
import DesignTokens.Number.Binary64
import DesignTokens.Number.Decimal
import DesignTokens.Proofs.Build.CommandLine
import DesignTokens.Proofs.Build.Disk
import DesignTokens.Proofs.Build.Output
import DesignTokens.Proofs.Build.Overwriting
import DesignTokens.Proofs.Build.Path
import DesignTokens.Proofs.Build.Reloading
import DesignTokens.Proofs.Build.Rendering
import DesignTokens.Proofs.Build.Roundtrip
import DesignTokens.Proofs.Build.Sources
import DesignTokens.Proofs.Build.Stages
import DesignTokens.Proofs.Build.Success
import DesignTokens.Proofs.Build.Task
import DesignTokens.Proofs.Build.Workshop
import DesignTokens.Proofs.Document.Alike
import DesignTokens.Proofs.Document.Compaction
import DesignTokens.Proofs.Document.Distinct
import DesignTokens.Proofs.Document.Induction
import DesignTokens.Proofs.Document.Insertion
import DesignTokens.Proofs.Document.Layers
import DesignTokens.Proofs.Document.Lookup
import DesignTokens.Proofs.Document.MergedPaths
import DesignTokens.Proofs.Document.Merging
import DesignTokens.Proofs.Document.Nulls
import DesignTokens.Proofs.Document.Obstruction
import DesignTokens.Proofs.Document.Repeated
import DesignTokens.Proofs.Document.Setting
import DesignTokens.Proofs.Document.Texts
import DesignTokens.Proofs.Entries
import DesignTokens.Proofs.Json.NumberText
import DesignTokens.Proofs.Number.Decimal
import DesignTokens.Proofs.Number.Exact
import DesignTokens.Proofs.Number.Rounding
import DesignTokens.Proofs.Number.Value
import DesignTokens.Proofs.Number.Whole
import DesignTokens.Proofs.Text.Split
import DesignTokens.Proofs.Theme.Agreement
import DesignTokens.Proofs.Theme.Aliases
import DesignTokens.Proofs.Theme.Arranged
import DesignTokens.Proofs.Theme.Assembled
import DesignTokens.Proofs.Theme.Checked
import DesignTokens.Proofs.Theme.Covering
import DesignTokens.Proofs.Theme.Deriving
import DesignTokens.Proofs.Theme.Finite
import DesignTokens.Proofs.Theme.FirstAlias
import DesignTokens.Proofs.Theme.Folding
import DesignTokens.Proofs.Theme.History
import DesignTokens.Proofs.Theme.Leaves
import DesignTokens.Proofs.Theme.Overlaps
import DesignTokens.Proofs.Theme.Overrides
import DesignTokens.Proofs.Theme.Phases
import DesignTokens.Proofs.Theme.Published
import DesignTokens.Proofs.Theme.Reading
import DesignTokens.Proofs.Theme.Reordered
import DesignTokens.Proofs.Theme.Replacing
import DesignTokens.Proofs.Theme.Rereading
import DesignTokens.Proofs.Theme.Resolved
import DesignTokens.Proofs.Theme.Sample
import DesignTokens.Proofs.Theme.Settling
import DesignTokens.Proofs.Theme.Shape
import DesignTokens.Proofs.Theme.Solution
import DesignTokens.Proofs.Theme.Uniform
import DesignTokens.Proofs.Theme.ValueForm
import DesignTokens.Proofs.Token.AliasText
import DesignTokens.Proofs.Token.Chain
import DesignTokens.Proofs.Token.ColorAlias
import DesignTokens.Proofs.Token.Covering
import DesignTokens.Proofs.Token.Descent
import DesignTokens.Proofs.Token.Everything
import DesignTokens.Proofs.Token.Listing
import DesignTokens.Proofs.Token.NumberForms
import DesignTokens.Proofs.Token.Numbers
import DesignTokens.Proofs.Token.Outcome
import DesignTokens.Proofs.Token.Outermost
import DesignTokens.Proofs.Token.PathText
import DesignTokens.Proofs.Token.Resolution
import DesignTokens.Proofs.Token.Reuse
import DesignTokens.Proofs.Token.Turns
import DesignTokens.Proofs.Toml.Bound
import DesignTokens.Proofs.Toml.Layout
import DesignTokens.Proofs.Toml.Number
import DesignTokens.Proofs.Toml.Quoting
import DesignTokens.Proofs.Toml.Reading
import DesignTokens.Proofs.Toml.Values
import DesignTokens.Proofs.Toml.Writable
import DesignTokens.Text.Hidden
import DesignTokens.Text.Quoted
import DesignTokens.Text.Split
import DesignTokens.Theme.Assembly
import DesignTokens.Theme.Base
import DesignTokens.Theme.Basic
import DesignTokens.Theme.Catalogue
import DesignTokens.Theme.Component
import DesignTokens.Theme.Draft
import DesignTokens.Theme.Error
import DesignTokens.Theme.Field
import DesignTokens.Theme.Overrides
import DesignTokens.Theme.Record
import DesignTokens.Theme.Semantic
import DesignTokens.Theme.Table
import DesignTokens.Token.Default
import DesignTokens.Token.Error
import DesignTokens.Token.Path
import DesignTokens.Token.Resolver
import DesignTokens.Token.Tree
import DesignTokens.Token.Value
import DesignTokens.Toml.Layout
import DesignTokens.Toml.Moment
import DesignTokens.Toml.Number
import DesignTokens.Toml.Quoting
import DesignTokens.Toml.Reader
import DesignTokens.Toml.Section
import DesignTokens.Toml.Text
import DesignTokens.Toml.Writer
