import TestMigration.Command.Arguments
import TestMigration.Command.Session
import TestMigration.Convert.Assertion
import TestMigration.Convert.Chain
import TestMigration.Convert.Conversion
import TestMigration.Convert.Guidance
import TestMigration.Convert.Import
import TestMigration.Convert.Pass
import TestMigration.Convert.RenderCall
import TestMigration.Convert.Selector
import TestMigration.Convert.Simulation
import TestMigration.Convert.Specifier
import TestMigration.Convert.Suggestion
import TestMigration.Convert.Usage
import TestMigration.Convert.Wrapper
import TestMigration.Decimal
import TestMigration.Diagnostic
import TestMigration.Dom.Element
import TestMigration.Dom.Markup
import TestMigration.Dom.Query
import TestMigration.Dom.Reference
import TestMigration.Dom.Rule
import TestMigration.Dom.Snapshot
import TestMigration.Failure
import TestMigration.Files.Disk
import TestMigration.Files.Encoding
import TestMigration.Files.NamePattern
import TestMigration.Files.Search
import TestMigration.Main
import TestMigration.Migration.Batch
import TestMigration.Migration.Discovery
import TestMigration.Migration.Phase
import TestMigration.Migration.Single
import TestMigration.Migration.Stage
import TestMigration.Outcome
import TestMigration.PathCheck
import TestMigration.PathName
import TestMigration.Run.Bus
import TestMigration.Run.Context
import TestMigration.Run.Event
import TestMigration.Run.Log
import TestMigration.Run.Pipeline
import TestMigration.Script.BindingRule
import TestMigration.Script.ClassRule
import TestMigration.Script.ExpressionRule
import TestMigration.Script.Kind
import TestMigration.Script.MarkupRule
import TestMigration.Script.Node
import TestMigration.Script.Parse
import TestMigration.Script.Reader
import TestMigration.Script.Rule
import TestMigration.Script.StatementRule
import TestMigration.Script.Token
import TestMigration.Script.TypeRule
import TestMigration.Settings.Check
import TestMigration.Settings.Cursor
import TestMigration.Settings.File
import TestMigration.Settings.Layout
import TestMigration.Settings.Scalar
import TestMigration.Settings.Setting
import TestMigration.Text.Blank
import TestMigration.Text.Difference
import TestMigration.Text.Expression
import TestMigration.Text.Glyph
import TestMigration.Text.Printable
import TestMigration.Text.Quoted
import TestMigration.Text.WordChar
import TestMigration.Tree.Call
import TestMigration.Tree.Document
import TestMigration.Tree.Edit
import TestMigration.Tree.Handle
import TestMigration.Tree.Pattern
import TestMigration.Value
import TestMigration.Proofs.Splice
import TestMigration.Proofs.Program
import TestMigration.Proofs.Atomic
import TestMigration.Proofs.Look
import TestMigration.Proofs.Pass
import TestMigration.Proofs.Passes
import TestMigration.Proofs.Validity
import TestMigration.Proofs.Still
import TestMigration.Proofs.Settled
import TestMigration.Proofs.Repetition
import TestMigration.Proofs.Place
import TestMigration.Proofs.Filing
import TestMigration.Proofs.Work
import TestMigration.Proofs.Worded
import TestMigration.Proofs.Turn
import TestMigration.Proofs.Batch
import TestMigration.Proofs.Outputs
import TestMigration.Proofs.Backups
import TestMigration.Proofs.Recording
import TestMigration.Proofs.Bindings
import TestMigration.Proofs.Queries
import TestMigration.Proofs.Interleaving
import TestMigration.Proofs.Agreement
import TestMigration.Proofs.Renaming
import TestMigration.Proofs.FileConversion
import TestMigration.Proofs.History
import TestMigration.Proofs.Protocol
import TestMigration.Proofs.Verdict
import TestMigration.Proofs.Threading
import TestMigration.Proofs.Lines
import TestMigration.Proofs.Location
import TestMigration.Proofs.Refusal
import TestMigration.Proofs.Navigation
import TestMigration.Proofs.Holders
import TestMigration.Proofs.Holding
import TestMigration.Proofs.Confined
import TestMigration.Proofs.Clean
import TestMigration.Proofs.Literals
import TestMigration.Proofs.Discovery
import TestMigration.Proofs.Answering
import TestMigration.Proofs.Paths
import TestMigration.Proofs.Spelling
import TestMigration.Proofs.Tidy
import TestMigration.Proofs.Expansion
import TestMigration.Proofs.Alike
import TestMigration.Proofs.Searches
import TestMigration.Proofs.Outermost
import TestMigration.Proofs.DryRun
import TestMigration.Proofs.Growth
import TestMigration.Proofs.Paving
import TestMigration.Proofs.Abreast
import TestMigration.Proofs.Independence
import TestMigration.Proofs.Reordering
import TestMigration.Proofs.Undeclared
import TestMigration.Proofs.Untouched
import TestMigration.Proofs.Resolution
import TestMigration.Proofs.Assigned
import TestMigration.Proofs.Counts
import TestMigration.Proofs.Assertions
import TestMigration.Proofs.Form
import TestMigration.Proofs.Pruning
import TestMigration.Proofs.TestIds
import TestMigration.Proofs.Replacing
import TestMigration.Proofs.Peeling
import TestMigration.Proofs.Outline
import TestMigration.Proofs.Nesting
import TestMigration.Proofs.PageQueries
import TestMigration.Proofs.Exchange
import TestMigration.Proofs.Extents
import TestMigration.Proofs.Heading
import TestMigration.Proofs.LegacyImports
import TestMigration.Proofs.Specifiers
import TestMigration.Proofs.Quoting
import TestMigration.Proofs.Absolutes
import TestMigration.Proofs.ImportNames
import TestMigration.Proofs.UserEvents
import TestMigration.Proofs.HeaderNames
import TestMigration.Proofs.Decoding
import TestMigration.Proofs.Callees
import TestMigration.Proofs.Reannotating
import TestMigration.Proofs.Enumeration
import TestMigration.Proofs.RoundTrip
import TestMigration.Proofs.Stacking
import TestMigration.Proofs.Accounts
import TestMigration.Proofs.Delivery
import TestMigration.Proofs.Aliases
import TestMigration.Proofs.Encoded
import TestMigration.Proofs.Substitution
import TestMigration.Proofs.Contained
import TestMigration.Proofs.Proposals
