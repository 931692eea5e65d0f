import EntityGraph.Calendar.Basic
import EntityGraph.Calendar.Reader
import EntityGraph.Command.Arguments
import EntityGraph.Command.Run
import EntityGraph.Compile.Bag
import EntityGraph.Compile.Build
import EntityGraph.Compile.Classify
import EntityGraph.Compile.Fields
import EntityGraph.Compile.Graph
import EntityGraph.Compile.Merge
import EntityGraph.Compile.Naming
import EntityGraph.Compile.Order
import EntityGraph.Compile.Rules
import EntityGraph.Compile.State
import EntityGraph.Decimal.Integer
import EntityGraph.Decimal.Reader
import EntityGraph.Decimal.Shortest
import EntityGraph.Diagnostic
import EntityGraph.Digest.Sha256
import EntityGraph.Entity.Basic
import EntityGraph.Entity.Codec
import EntityGraph.Entity.Field
import EntityGraph.Entity.Fingerprint
import EntityGraph.Entity.Scalar
import EntityGraph.Error
import EntityGraph.Files.Access
import EntityGraph.Files.Path
import EntityGraph.Files.Tree
import EntityGraph.Json.Basic
import EntityGraph.Json.Decode
import EntityGraph.Json.Printer
import EntityGraph.Json.Reader
import EntityGraph.Main
import EntityGraph.Pattern.Basic
import EntityGraph.Pattern.CharSet
import EntityGraph.Pattern.Reader
import EntityGraph.Pattern.Rules
import EntityGraph.Pattern.Template
import EntityGraph.Proofs.Build.Avoiding
import EntityGraph.Proofs.Build.Classify
import EntityGraph.Proofs.Build.Concluding
import EntityGraph.Proofs.Build.ConcludingEntities
import EntityGraph.Proofs.Build.ConcludingMembers
import EntityGraph.Proofs.Build.Entities
import EntityGraph.Proofs.Build.Flattening
import EntityGraph.Proofs.Build.Histories
import EntityGraph.Proofs.Build.Inheritance
import EntityGraph.Proofs.Build.Insertion
import EntityGraph.Proofs.Build.Lawful
import EntityGraph.Proofs.Build.LawfulEntities
import EntityGraph.Proofs.Build.Laws
import EntityGraph.Proofs.Build.LoggedRuns
import EntityGraph.Proofs.Build.LoggedWalks
import EntityGraph.Proofs.Build.Logs
import EntityGraph.Proofs.Build.MirroredRuns
import EntityGraph.Proofs.Build.Mirroring
import EntityGraph.Proofs.Build.Nesting
import EntityGraph.Proofs.Build.Offers
import EntityGraph.Proofs.Build.Parents
import EntityGraph.Proofs.Build.Priority
import EntityGraph.Proofs.Build.Provenance
import EntityGraph.Proofs.Build.Repeats
import EntityGraph.Proofs.Build.Roots
import EntityGraph.Proofs.Build.Runs
import EntityGraph.Proofs.Build.SimpleMembers
import EntityGraph.Proofs.Build.Step
import EntityGraph.Proofs.Build.Unfolding
import EntityGraph.Proofs.Calendar
import EntityGraph.Proofs.Calendar.Continuing
import EntityGraph.Proofs.Calendar.Order
import EntityGraph.Proofs.Calendar.Reading
import EntityGraph.Proofs.Decimal.Notation
import EntityGraph.Proofs.Decimal.Numerals
import EntityGraph.Proofs.Decimal.Rounding
import EntityGraph.Proofs.Entity
import EntityGraph.Proofs.Entity.Codec
import EntityGraph.Proofs.Entity.Determinacy
import EntityGraph.Proofs.Entity.Text
import EntityGraph.Proofs.Faults
import EntityGraph.Proofs.Field
import EntityGraph.Proofs.Files
import EntityGraph.Proofs.Graph.Accessors
import EntityGraph.Proofs.Graph.Agreement
import EntityGraph.Proofs.Graph.Closing
import EntityGraph.Proofs.Graph.Coverage
import EntityGraph.Proofs.Graph.Definitions
import EntityGraph.Proofs.Graph.Entities
import EntityGraph.Proofs.Graph.Fingerprint
import EntityGraph.Proofs.Graph.Inheritance
import EntityGraph.Proofs.Graph.Keys
import EntityGraph.Proofs.Graph.Literals
import EntityGraph.Proofs.Graph.Logs
import EntityGraph.Proofs.Graph.Multiplicity
import EntityGraph.Proofs.Graph.Relations
import EntityGraph.Proofs.Graph.Repeats
import EntityGraph.Proofs.Graph.Sharing
import EntityGraph.Proofs.Graph.Spelling
import EntityGraph.Proofs.Graph.Stages
import EntityGraph.Proofs.Graph.Stems
import EntityGraph.Proofs.Graph.Survival
import EntityGraph.Proofs.Graph.Termination
import EntityGraph.Proofs.Json.Blurring
import EntityGraph.Proofs.Json.Keys
import EntityGraph.Proofs.Json.Reading
import EntityGraph.Proofs.Json.Record
import EntityGraph.Proofs.Json.Scalars
import EntityGraph.Proofs.Json.Text
import EntityGraph.Proofs.Layering
import EntityGraph.Proofs.Lists
import EntityGraph.Proofs.Merge.Absorption
import EntityGraph.Proofs.Merge.Agreement
import EntityGraph.Proofs.Merge.Aliases
import EntityGraph.Proofs.Merge.Bags
import EntityGraph.Proofs.Merge.Blend
import EntityGraph.Proofs.Merge.Comparison
import EntityGraph.Proofs.Merge.Groups
import EntityGraph.Proofs.Merge.Growth
import EntityGraph.Proofs.Merge.Notes
import EntityGraph.Proofs.Merge.Nullability
import EntityGraph.Proofs.Merge.Parents
import EntityGraph.Proofs.Merge.Rounds
import EntityGraph.Proofs.Merge.Signatures
import EntityGraph.Proofs.Merge.Survival
import EntityGraph.Proofs.Naming
import EntityGraph.Proofs.Naming.Queries
import EntityGraph.Proofs.Options
import EntityGraph.Proofs.Order.Cycles
import EntityGraph.Proofs.Order.Emission
import EntityGraph.Proofs.Order.Requirements
import EntityGraph.Proofs.Overlays
import EntityGraph.Proofs.Pattern.Counted
import EntityGraph.Proofs.Pattern.Language
import EntityGraph.Proofs.Pattern.Literal
import EntityGraph.Proofs.Pattern.Settling
import EntityGraph.Proofs.Pattern.Straight
import EntityGraph.Proofs.Rank
import EntityGraph.Proofs.Result
import EntityGraph.Proofs.Rules.BackNames
import EntityGraph.Proofs.Rules.BaggedMembers
import EntityGraph.Proofs.Rules.Bags
import EntityGraph.Proofs.Rules.Mirroring
import EntityGraph.Proofs.Rules.Priority
import EntityGraph.Proofs.Rules.Requiredness
import EntityGraph.Proofs.Rules.Wrappers
import EntityGraph.Proofs.Scalar.Defaults
import EntityGraph.Proofs.Scalar.Lengths
import EntityGraph.Proofs.Scalar.Literals
import EntityGraph.Proofs.Scalar.Memory
import EntityGraph.Proofs.Scalar.Primitive
import EntityGraph.Proofs.Scalar.Ranges
import EntityGraph.Proofs.Scalar.Recall
import EntityGraph.Proofs.Schema.Codec
import EntityGraph.Proofs.Schema.Cycles
import EntityGraph.Proofs.Schema.Demands
import EntityGraph.Proofs.Schema.Depth
import EntityGraph.Proofs.Schema.Determinacy
import EntityGraph.Proofs.Schema.Directory
import EntityGraph.Proofs.Schema.Inlining
import EntityGraph.Proofs.Schema.Loading
import EntityGraph.Proofs.Schema.Places
import EntityGraph.Proofs.Schema.Qualified
import EntityGraph.Proofs.Schema.Resolved
import EntityGraph.Proofs.Schema.Types
import EntityGraph.Proofs.Table
import EntityGraph.Proofs.Text.Case
import EntityGraph.Proofs.Text.Documentation
import EntityGraph.Proofs.Text.Squeezing
import EntityGraph.Proofs.Text.Split
import EntityGraph.Scalar.Builtin
import EntityGraph.Scalar.Derive
import EntityGraph.Scalar.Facets
import EntityGraph.Schema.Codec
import EntityGraph.Schema.Content
import EntityGraph.Schema.Document
import EntityGraph.Schema.Index
import EntityGraph.Schema.Load
import EntityGraph.Schema.Namespace
import EntityGraph.Schema.Qualify
import EntityGraph.Schema.Resolve
import EntityGraph.Settings.Basic
import EntityGraph.Settings.Codec
import EntityGraph.Settings.Layers
import EntityGraph.Settings.Load
import EntityGraph.Settings.Read
import EntityGraph.Table
import EntityGraph.Text.Basic
import EntityGraph.Text.Case
import EntityGraph.Text.Closest
import EntityGraph.Text.Documentation
import EntityGraph.Text.EditScript
import EntityGraph.Text.LineDiff
import EntityGraph.Toml.Basic
import EntityGraph.Toml.Reader
import EntityGraph.Unicode.Category
import EntityGraph.Unicode.Folding
import EntityGraph.Unicode.Lowercase
import EntityGraph.Unicode.Property
import EntityGraph.Unicode.Runs
import EntityGraph.Unicode.Script
