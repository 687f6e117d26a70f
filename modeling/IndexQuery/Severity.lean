/-! # Severity of errors

    An error either rejects the request as given, or says that the request can
    never be met.
-/

namespace IndexQuery

/-- How grave an error is. -/
inductive Severity where
  /-- The request is refused and may be corrected. -/
  | reject
  /-- The request contradicts itself and must not be repeated. -/
  | fatal
deriving DecidableEq, Repr, Inhabited

/-- The name of a severity in reports. -/
def Severity.label : Severity → String
  | .reject => "REJECT"
  | .fatal => "FATAL"

end IndexQuery
