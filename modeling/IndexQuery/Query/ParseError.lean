import IndexQuery.Severity

/-! # Errors of reading query text

    An error names its cause; `ParseError.message` gives the wording.
-/

namespace IndexQuery

/-- What the reader was looking for. -/
inductive Expected where
  | queryToken
  | endOfQuery
  | expression
  | operand
  | closeParen
  | openParen
  | operator
  | literal
  | markerValue
  | trueOrReason
  | functionName
  | functionArgument
  | argumentSeparator
deriving DecidableEq, Repr, Inhabited

/-- The wording of an expectation. -/
def Expected.text : Expected → String
  | .queryToken => "query token"
  | .endOfQuery => "end of query"
  | .expression => "expression"
  | .operand => "field, function or '('"
  | .closeParen => "')'"
  | .openParen => "'('"
  | .operator => "operator"
  | .literal => "literal"
  | .markerValue => "marker value"
  | .trueOrReason => "true or quoted reason"
  | .functionName => "function name"
  | .functionArgument => "function argument"
  | .argumentSeparator => "',' or ')'"

/-- What is wrong with an assignment to a marker. -/
inductive MarkerFault where
  /-- The assignment does not open a conjunction. -/
  | misplaced (label : String)
  /-- The assignment is conjoined with more than one operand. -/
  | manyChildren
  /-- There is no marker of that name. -/
  | unknown (label : String)
  /-- A reason is given to a marker that takes none. -/
  | reasonRefused (label : String)
deriving DecidableEq, Repr, Inhabited

/-- The wording of a fault. -/
def MarkerFault.text : MarkerFault → String
  | .misplaced label =>
    "assignment to '" ++ label ++ "' must be the first operand of a conjunction"
  | .manyChildren => "a marker must be conjoined with exactly one child"
  | .unknown label => "unknown marker '" ++ label ++ "'"
  | .reasonRefused label => "marker '" ++ label ++ "' only accepts true"

/-- Why a text is not a query. Positions count characters from zero. -/
inductive ParseError where
  /-- The text holds nothing but white space. -/
  | empty
  | unexpectedEnd (expected : Expected)
  | unexpectedToken (position : Nat) (found : String) (expected : Expected)
  /-- The quote mark at this position has no partner. -/
  | unterminatedString (position : Nat)
  | invalidMarker (fault : MarkerFault)
deriving DecidableEq, Repr, Inhabited

namespace ParseError

/-- The stable code of the error. -/
def code : ParseError → String
  | .empty => "SHARDQUERY_PARSE_EMPTY"
  | .unexpectedEnd _ => "SHARDQUERY_PARSE_UNEXPECTED_END"
  | .unexpectedToken .. => "SHARDQUERY_PARSE_UNEXPECTED_TOKEN"
  | .unterminatedString _ => "SHARDQUERY_PARSE_UNTERMINATED_STRING"
  | .invalidMarker _ => "SHARDQUERY_PARSE_INVALID_MARKER"

/-- The wording of the error. -/
def message : ParseError → String
  | .empty => "Query text is empty"
  | .unexpectedEnd expected => "Unexpected end of query text, expected " ++ expected.text
  | .unexpectedToken position found expected =>
    "Unexpected '" ++ found ++ "' at position " ++ toString position ++ ", expected " ++
      expected.text
  | .unterminatedString position =>
    "Unterminated string starting at position " ++ toString position
  | .invalidMarker fault => "Invalid marker: " ++ fault.text

/-- A text that is no query can be corrected. -/
def severity (_ : ParseError) : Severity := .reject

end ParseError

end IndexQuery
