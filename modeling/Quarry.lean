import Quarry.Criteria.Basic
import Quarry.Criteria.Complaints
import Quarry.Criteria.Patterns
import Quarry.Criteria.Reader
import Quarry.Criteria.Shape
import Quarry.Event
import Quarry.Explore
import Quarry.Expr.Basic
import Quarry.Expr.Eval
import Quarry.Expr.Reader
import Quarry.Expr.Token
import Quarry.Fault
import Quarry.Filter.Basic
import Quarry.Filter.Builtin
import Quarry.Filter.Reader
import Quarry.Gateway
import Quarry.Json.Reader
import Quarry.Json.Writer
import Quarry.Message
import Quarry.Navigation.Check
import Quarry.Navigation.Eval
import Quarry.Navigation.Form
import Quarry.Navigation.Token
import Quarry.Number.Basic
import Quarry.Number.Binary64
import Quarry.Number.Shortest
import Quarry.Number.Sum
import Quarry.Operand.Basic
import Quarry.Operand.Literal
import Quarry.Operand.Relation
import Quarry.Path.Basic
import Quarry.Path.Reader
import Quarry.Pattern.Basic
import Quarry.Pattern.Caseless
import Quarry.Pattern.Leaf
import Quarry.Pattern.Named
import Quarry.Pattern.Reader
import Quarry.Pattern.Reading
import Quarry.Pattern.Search
import Quarry.Proofs.Acceptance
import Quarry.Proofs.Answers
import Quarry.Proofs.Comparisons
import Quarry.Proofs.Conditions
import Quarry.Proofs.Constructs
import Quarry.Proofs.Costs
import Quarry.Proofs.Criteria
import Quarry.Proofs.Dialects
import Quarry.Proofs.Documents
import Quarry.Proofs.DottedPaths
import Quarry.Proofs.Evaluation
import Quarry.Proofs.Exploration
import Quarry.Proofs.Expressions
import Quarry.Proofs.FieldPaths
import Quarry.Proofs.Filters
import Quarry.Proofs.Grammar
import Quarry.Proofs.Invariants
import Quarry.Proofs.Lexemes
import Quarry.Proofs.Literals
import Quarry.Proofs.Lookups
import Quarry.Proofs.Navigations
import Quarry.Proofs.Nesting
import Quarry.Proofs.Numerals
import Quarry.Proofs.Outcomes
import Quarry.Proofs.Pipelines
import Quarry.Proofs.Places
import Quarry.Proofs.Precedence
import Quarry.Proofs.QuotedText
import Quarry.Proofs.Result
import Quarry.Proofs.RoundTrip
import Quarry.Proofs.Rounding
import Quarry.Proofs.Scanning
import Quarry.Proofs.Schema
import Quarry.Proofs.Selections
import Quarry.Proofs.Selects
import Quarry.Proofs.Shortest
import Quarry.Proofs.Spelling
import Quarry.Proofs.Steps
import Quarry.Proofs.Totality
import Quarry.Proofs.Values
import Quarry.Proofs.Workflow
import Quarry.Proofs.Written
import Quarry.Request.Basic
import Quarry.Request.Reader
import Quarry.Settings.Basic
import Quarry.Settings.Reader
import Quarry.Step.Basic
import Quarry.Step.Filtering
import Quarry.Step.Reshaping
import Quarry.Step.Sorting
import Quarry.Text.Class
import Quarry.Text.Case
import Quarry.Text.Cut
import Quarry.Text.Identifier
import Quarry.Text.Letter
import Quarry.Text.Cited
import Quarry.Text.Nesting
import Quarry.Text.Numeral
import Quarry.Text.Quoted
import Quarry.Text.Visible
import Quarry.Value.Basic
import Quarry.Value.Items
import Quarry.Value.Members
import Quarry.Value.Order
import Quarry.Workflow
import Quarry.Yaml.Datum
import Quarry.Yaml.Instant
import Quarry.Yaml.Line
import Quarry.Yaml.Node
import Quarry.Yaml.Plain
import Quarry.Yaml.Scalar
import Quarry.Yaml.Token
import Quarry.Proofs.Matching
import Quarry.Proofs.Refusals
import Quarry.Proofs.Thresholds
import Quarry.Proofs.Conjunctions
import Quarry.Proofs.Reordering
import Quarry.Proofs.Balance
import Quarry.Proofs.Integers
import Quarry.Proofs.Orders
import Quarry.Proofs.SortKeys
import Quarry.Proofs.Logs
import Quarry.Proofs.Converses
import Quarry.Proofs.Operands
import Quarry.Proofs.Lexing
import Quarry.Proofs.Offsets
import Quarry.Proofs.Lockstep
import Quarry.Proofs.Follows
import Quarry.Proofs.InStep
import Quarry.Proofs.Bounds
import Quarry.Proofs.Decoding
import Quarry.Proofs.Heights
import Quarry.Proofs.Descents
import Quarry.Proofs.BareNot
import Quarry.Proofs.PlainPaths
import Quarry.Proofs.NaturalKeys
import Quarry.Proofs.NaturalSort
import Quarry.Proofs.IntegerSort
import Quarry.Proofs.Segments
import Quarry.Proofs.Commuting
import Quarry.Proofs.Distinct
import Quarry.Proofs.Extremes
import Quarry.Proofs.Maps
import Quarry.Proofs.Ways
import Quarry.Proofs.Matches
import Quarry.Proofs.Outline
import Quarry.Proofs.Modes
import Quarry.Proofs.Escapes
import Quarry.Proofs.Signs
import Quarry.Proofs.QuotedNames
import Quarry.Proofs.Chunks
import Quarry.Proofs.Picks
import Quarry.Proofs.Renames
import Quarry.Proofs.Collisions
import Quarry.Proofs.Projections
import Quarry.Proofs.Additions
import Quarry.Proofs.Entries
import Quarry.Proofs.Slices
import Quarry.Proofs.Conversions
import Quarry.Proofs.Records
import Quarry.Proofs.NumberedTexts
