import IndexQuery.Catalog
import IndexQuery.Composite.Alphabet
import IndexQuery.Composite.Fold
import IndexQuery.Composite.Mapping
import IndexQuery.Composite.Term
import IndexQuery.Config.Basic
import IndexQuery.Config.Codec
import IndexQuery.Config.Instant
import IndexQuery.Distinct
import IndexQuery.Document
import IndexQuery.Executability.Classifier
import IndexQuery.Executability.Contributors
import IndexQuery.Executability.PushDown
import IndexQuery.Executability.State
import IndexQuery.Expansion.Basic
import IndexQuery.Expansion.Clause
import IndexQuery.Json.Basic
import IndexQuery.Json.Parser
import IndexQuery.Json.Token
import IndexQuery.Json.Writer
import IndexQuery.Lookup.Basic
import IndexQuery.Lookup.Leaf
import IndexQuery.Memo
import IndexQuery.Normalizer.Address
import IndexQuery.Normalizer.Basic
import IndexQuery.Normalizer.FixedText
import IndexQuery.Normalizer.Numeral
import IndexQuery.Plan.Basic
import IndexQuery.Plan.Compile
import IndexQuery.Plan.Evaluate
import IndexQuery.Plan.Options
import IndexQuery.Proofs.Composite.Alphabet
import IndexQuery.Proofs.Composite.Compose
import IndexQuery.Proofs.Composite.Fold
import IndexQuery.Proofs.Composite.Joined
import IndexQuery.Proofs.Composite.Lookup
import IndexQuery.Proofs.Composite.Overloaded
import IndexQuery.Proofs.Composite.Range
import IndexQuery.Proofs.Composite.Term
import IndexQuery.Proofs.Composite.Tidy
import IndexQuery.Proofs.Executability.Classification
import IndexQuery.Proofs.Executability.DeMorgan
import IndexQuery.Proofs.Executability.Finding
import IndexQuery.Proofs.Executability.Modes
import IndexQuery.Proofs.Executability.PushDown
import IndexQuery.Proofs.Executability.Recorded
import IndexQuery.Proofs.Executability.Stable
import IndexQuery.Proofs.Executability.State
import IndexQuery.Proofs.Expansion.Clause
import IndexQuery.Proofs.Expansion.Complete
import IndexQuery.Proofs.Expansion.Form
import IndexQuery.Proofs.Expansion.Idempotent
import IndexQuery.Proofs.Expansion.Join
import IndexQuery.Proofs.Expansion.Node
import IndexQuery.Proofs.Expansion.Overflow
import IndexQuery.Proofs.Expansion.Settled
import IndexQuery.Proofs.Expansion.Tidy
import IndexQuery.Proofs.Expansion.Truth
import IndexQuery.Proofs.Lookup.Exact
import IndexQuery.Proofs.Lookup.Front
import IndexQuery.Proofs.Lookup.Running
import IndexQuery.Proofs.Normalizer.Address
import IndexQuery.Proofs.Normalizer.Arithmetic
import IndexQuery.Proofs.Normalizer.Basic
import IndexQuery.Proofs.Normalizer.Decimal
import IndexQuery.Proofs.Normalizer.Numeral
import IndexQuery.Proofs.Normalizer.Order
import IndexQuery.Proofs.Normalizer.Script
import IndexQuery.Proofs.Outcome
import IndexQuery.Proofs.Passes
import IndexQuery.Proofs.Plan.Anchor
import IndexQuery.Proofs.Plan.Collected
import IndexQuery.Proofs.Plan.Coverage
import IndexQuery.Proofs.Plan.Evaluation
import IndexQuery.Proofs.Plan.Executable
import IndexQuery.Proofs.Plan.Session
import IndexQuery.Proofs.Plan.Shape
import IndexQuery.Proofs.Query.Address
import IndexQuery.Proofs.Query.Canonical
import IndexQuery.Proofs.Query.Lineage
import IndexQuery.Proofs.Query.Numbering
import IndexQuery.Proofs.Query.Read
import IndexQuery.Proofs.Query.RoundTrip
import IndexQuery.Proofs.Query.Scan
import IndexQuery.Proofs.Query.Tidy
import IndexQuery.Proofs.Query.Truth
import IndexQuery.Proofs.Store.Cursor
import IndexQuery.Proofs.Store.Entry
import IndexQuery.Proofs.Store.Range
import IndexQuery.Proofs.Text.Order
import IndexQuery.Proofs.Unicode.Lowercase
import IndexQuery.Query.Basic
import IndexQuery.Query.Bounds
import IndexQuery.Query.Comparison
import IndexQuery.Query.Lineage
import IndexQuery.Query.Marker
import IndexQuery.Query.ParseError
import IndexQuery.Query.Parser
import IndexQuery.Query.Printer
import IndexQuery.Query.Token
import IndexQuery.Regex.Assertion
import IndexQuery.Regex.Basic
import IndexQuery.Regex.Class
import IndexQuery.Regex.Escape
import IndexQuery.Regex.Flags
import IndexQuery.Regex.Footprint
import IndexQuery.Regex.Match
import IndexQuery.Regex.NamedClass
import IndexQuery.Regex.Normal
import IndexQuery.Regex.Parser
import IndexQuery.Regex.Pattern
import IndexQuery.Regex.Property
import IndexQuery.Regex.Spacing
import IndexQuery.Regex.Token
import IndexQuery.Regex.Utf8
import IndexQuery.Severity
import IndexQuery.Sorted.Map
import IndexQuery.Sorted.Set
import IndexQuery.Store.Key
import IndexQuery.Store.Record
import IndexQuery.Store.Source
import IndexQuery.Store.TimeWindow
import IndexQuery.Text.Escaped
import IndexQuery.Text.LastSplit
import IndexQuery.Unicode.Blank
import IndexQuery.Unicode.CaseTable
import IndexQuery.Unicode.CharSet
import IndexQuery.Unicode.Digit
import IndexQuery.Unicode.Folding
import IndexQuery.Unicode.Hidden
import IndexQuery.Unicode.Letter
import IndexQuery.Unicode.Lowercase
import IndexQuery.Unicode.Mark
import IndexQuery.Unicode.Newcomer
import IndexQuery.Word
import IndexQuery.Proofs.Executability.Contradiction
import IndexQuery.Proofs.Executability.Reshaping
import IndexQuery.Proofs.Store.Ownership
import IndexQuery.Proofs.Executability.Cause
import IndexQuery.Proofs.Composite.Neighbours
import IndexQuery.Proofs.Normalizer.SingleText
import IndexQuery.Proofs.Config.Instant
import IndexQuery.Proofs.Json.RoundTrip
import IndexQuery.Proofs.Text.Digits
import IndexQuery.Proofs.Config.RoundTrip
import IndexQuery.Proofs.Regex.Spans
import IndexQuery.Proofs.Regex.Parts
import IndexQuery.Proofs.Regex.Rest
import IndexQuery.Proofs.Regex.Levels
import IndexQuery.Proofs.Lookup.Accepted
