import FilterQuery.Backend
import FilterQuery.Backend.Refusal
import FilterQuery.Command
import FilterQuery.Command.Arguments
import FilterQuery.Json
import FilterQuery.Json.NumberText
import FilterQuery.Json.Reader
import FilterQuery.Json.StringText
import FilterQuery.Json.Writer
import FilterQuery.Literal
import FilterQuery.Main
import FilterQuery.Manual
import FilterQuery.Number
import FilterQuery.Number.Binary64
import FilterQuery.Number.Fixed
import FilterQuery.Number.Notation
import FilterQuery.Number.Shortest
import FilterQuery.Operator
import FilterQuery.Predicate
import FilterQuery.Predicate.Backend
import FilterQuery.Predicate.Glob
import FilterQuery.Query
import FilterQuery.Query.Encoding
import FilterQuery.Query.Parser
import FilterQuery.Selector
import FilterQuery.Sql
import FilterQuery.Sql.Backend
import FilterQuery.Sql.Pattern
import FilterQuery.SyntaxError
import FilterQuery.Task
import FilterQuery.Text.Blank
import FilterQuery.Text.CaseRun
import FilterQuery.Text.Cased
import FilterQuery.Text.CharClass
import FilterQuery.Text.Fold
import FilterQuery.Text.LowerCase
import FilterQuery.Token
import FilterQuery.Token.Lexer
import FilterQuery.Proofs.Query.Grammar
import FilterQuery.Proofs.Query.Machine
import FilterQuery.Proofs.Query.Recognition
import FilterQuery.Proofs.Literal.Typing
import FilterQuery.Proofs.Query.WellFormed
import FilterQuery.Proofs.Query.Rendering
import FilterQuery.Proofs.Sql.Scanner
import FilterQuery.Proofs.Sql.Fragments
import FilterQuery.Proofs.Sql.Statement
import FilterQuery.Proofs.Backend.Calls
import FilterQuery.Proofs.Backend.Refusals
import FilterQuery.Proofs.Sql.Independence
import FilterQuery.Proofs.Sql.Reading
import FilterQuery.Proofs.Query.ViablePrefix
import FilterQuery.Proofs.Predicate.Globs
import FilterQuery.Proofs.Sql.Like
import FilterQuery.Proofs.Backend.Wildcards
import FilterQuery.Proofs.Text.Folding
import FilterQuery.Proofs.Predicate.IgnoringCase
import FilterQuery.Proofs.Number.Exactness
import FilterQuery.Proofs.Predicate.Numbers
import FilterQuery.Proofs.Token.Layout
import FilterQuery.Proofs.Token.Sequences
import FilterQuery.Proofs.Query.Tally
import FilterQuery.Proofs.Query.TruthfulErrors
import FilterQuery.Proofs.Query.Limits
import FilterQuery.Proofs.Query.Descent
import FilterQuery.Proofs.Query.RepeatedCalls
import FilterQuery.Proofs.Token.Spans
import FilterQuery.Proofs.Token.Gaps
import FilterQuery.Proofs.Query.Spacing
import FilterQuery.Proofs.Query.Origin
import FilterQuery.Proofs.Query.Combination
import FilterQuery.Proofs.Predicate.Equality
import FilterQuery.Proofs.Predicate.Layouts
import FilterQuery.Proofs.Sql.Patterns
import FilterQuery.Proofs.Text.Drift
import FilterQuery.Proofs.Predicate.Widening
import FilterQuery.Proofs.Predicate.Membership
import FilterQuery.Proofs.Predicate.Order
import FilterQuery.Proofs.Predicate.Presence
import FilterQuery.Proofs.Predicate.Aliases
import FilterQuery.Proofs.Query.OuterParens
import FilterQuery.Proofs.Token.RepeatedCalls
import FilterQuery.Proofs.Sql.IgnoringCase
import FilterQuery.Proofs.Number.Rounding
import FilterQuery.Proofs.Literal.Classification
import FilterQuery.Proofs.Number.ReadBack
import FilterQuery.Proofs.Json.UniqueReading
import FilterQuery.Proofs.Query.PrintedTree
import FilterQuery.Proofs.Selector.Paths
