import GraphQuery.Access
import GraphQuery.Collection
import GraphQuery.CommandLine
import GraphQuery.CommandLine.Invocation
import GraphQuery.CommandLine.Options
import GraphQuery.CommandLine.Report
import GraphQuery.Compile
import GraphQuery.Dictionary
import GraphQuery.Double
import GraphQuery.Double.Shortest
import GraphQuery.Error
import GraphQuery.Evaluation
import GraphQuery.Execution
import GraphQuery.Graph.Data
import GraphQuery.Graph.Fixture
import GraphQuery.Graph.Store
import GraphQuery.Json.Order
import GraphQuery.Json.Printer
import GraphQuery.Json.Reader
import GraphQuery.Json.Record
import GraphQuery.Json.Value
import GraphQuery.Main
import GraphQuery.Page
import GraphQuery.Pattern
import GraphQuery.Pattern.Bracket
import GraphQuery.Pattern.CharSet
import GraphQuery.Pattern.Escape
import GraphQuery.Pattern.Flags
import GraphQuery.Pattern.Parser
import GraphQuery.Plan
import GraphQuery.Proofs.Abbreviations
import GraphQuery.Proofs.Acceptance
import GraphQuery.Proofs.Access
import GraphQuery.Proofs.Agreement
import GraphQuery.Proofs.Aliases
import GraphQuery.Proofs.AqlScripts
import GraphQuery.Proofs.Bindings
import GraphQuery.Proofs.Bookkeeping
import GraphQuery.Proofs.Brackets
import GraphQuery.Proofs.Ceilings
import GraphQuery.Proofs.Claiming
import GraphQuery.Proofs.Collapsing
import GraphQuery.Proofs.Comparison
import GraphQuery.Proofs.Completeness
import GraphQuery.Proofs.Counting
import GraphQuery.Proofs.Cursors
import GraphQuery.Proofs.CypherScripts
import GraphQuery.Proofs.DebugTexts
import GraphQuery.Proofs.Discovery
import GraphQuery.Proofs.Documents
import GraphQuery.Proofs.Drafts
import GraphQuery.Proofs.Enumeration
import GraphQuery.Proofs.Exclusion
import GraphQuery.Proofs.Expansion
import GraphQuery.Proofs.Expressions
import GraphQuery.Proofs.ExtendedKeys
import GraphQuery.Proofs.Failure
import GraphQuery.Proofs.Forests
import GraphQuery.Proofs.Grouping
import GraphQuery.Proofs.Guards
import GraphQuery.Proofs.Identifiers
import GraphQuery.Proofs.Indifference
import GraphQuery.Proofs.Introductions
import GraphQuery.Proofs.Isolation
import GraphQuery.Proofs.Joining
import GraphQuery.Proofs.Levels
import GraphQuery.Proofs.LikePatterns
import GraphQuery.Proofs.Lines
import GraphQuery.Proofs.Links
import GraphQuery.Proofs.Matches
import GraphQuery.Proofs.Membership
import GraphQuery.Proofs.MergedLevels
import GraphQuery.Proofs.Merging
import GraphQuery.Proofs.Metering
import GraphQuery.Proofs.Naming
import GraphQuery.Proofs.NestedStatements
import GraphQuery.Proofs.Nesting
import GraphQuery.Proofs.Objects
import GraphQuery.Proofs.OrderedLists
import GraphQuery.Proofs.Orders
import GraphQuery.Proofs.Outlines
import GraphQuery.Proofs.Paging
import GraphQuery.Proofs.PlacedStatements
import GraphQuery.Proofs.Placeholders
import GraphQuery.Proofs.Placements
import GraphQuery.Proofs.ProjectedKeys
import GraphQuery.Proofs.Provenance
import GraphQuery.Proofs.Pruning
import GraphQuery.Proofs.Readings
import GraphQuery.Proofs.Records
import GraphQuery.Proofs.Redaction
import GraphQuery.Proofs.RenamedRecords
import GraphQuery.Proofs.Renamings
import GraphQuery.Proofs.Repetitions
import GraphQuery.Proofs.Replacement
import GraphQuery.Proofs.Reports
import GraphQuery.Proofs.Restrictions
import GraphQuery.Proofs.ResultKeys
import GraphQuery.Proofs.Retries
import GraphQuery.Proofs.RoundTrip
import GraphQuery.Proofs.RowFailures
import GraphQuery.Proofs.Schemas
import GraphQuery.Proofs.ScopeFaults
import GraphQuery.Proofs.ScopedStatements
import GraphQuery.Proofs.Scopes
import GraphQuery.Proofs.Scoping
import GraphQuery.Proofs.Selection
import GraphQuery.Proofs.Sorting
import GraphQuery.Proofs.Spellings
import GraphQuery.Proofs.Splicing
import GraphQuery.Proofs.Variables
import GraphQuery.Proofs.Visits
import GraphQuery.Proofs.Vocabularies
import GraphQuery.Provisioning
import GraphQuery.Query.Basic
import GraphQuery.Query.Decode
import GraphQuery.Query.Encode
import GraphQuery.Query.Namespaces
import GraphQuery.Scope
import GraphQuery.Scope.Element
import GraphQuery.Service
import GraphQuery.Session
import GraphQuery.Settings
import GraphQuery.Specification
import GraphQuery.Specification.Encode
import GraphQuery.Specification.Interpret
import GraphQuery.Stage
import GraphQuery.Statement
import GraphQuery.Statement.Aql
import GraphQuery.Statement.Cypher
import GraphQuery.Text.Blank
import GraphQuery.Text.Cut
import GraphQuery.Text.Quoted
import GraphQuery.Text.Replace
import GraphQuery.Text.Safe
import GraphQuery.Toml.Reader
import GraphQuery.Toml.Scalar
import GraphQuery.Toml.Table
import GraphQuery.Unicode.Category
import GraphQuery.Unicode.Folding
import GraphQuery.Unicode.Property
import GraphQuery.Unicode.Runs
import GraphQuery.Unicode.Script
import GraphQuery.Uuid
import GraphQuery.Vocabulary
