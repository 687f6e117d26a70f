/-! # Comparisons

    The leaves of a query that compare a field with a literal.
-/

namespace IndexQuery

/-- The field name of a term that names no field. -/
def anyField : String := "_ANYFIELD_"

/-- The field name of a term whose field was taken away. -/
def noField : String := "_NOFIELD_"

/-- The right-hand side of a comparison. -/
inductive Literal where
  /-- Quoted text. -/
  | string (text : String)
  /-- A number, as it was written. -/
  | number (text : String)
  /-- The keyword for a missing value. -/
  | null
deriving DecidableEq, Hashable, Repr, Inhabited

namespace Literal

/-- Whether the literal stands for a missing value. -/
def isNull : Literal → Bool
  | .null => true
  | _ => false

/-- The text of the literal, if it has one. -/
def text? : Literal → Option String
  | .string s | .number s => some s
  | .null => none

/-- The text of the literal, empty for a missing value. -/
def text (l : Literal) : String := l.text?.getD ""

end Literal

/-- The comparison operators. -/
inductive CompareOp where
  | eq
  | ne
  | lt
  | le
  | gt
  | ge
  /-- The value matches a regular expression. -/
  | regex
  /-- The value does not match a regular expression. -/
  | notRegex
deriving DecidableEq, Hashable, Repr, Inhabited

namespace CompareOp

/-- The operator as it stands in query text. -/
def symbol : CompareOp → String
  | .eq => "=="
  | .ne => "!="
  | .lt => "<"
  | .le => "<="
  | .gt => ">"
  | .ge => ">="
  | .regex => "=~"
  | .notRegex => "!~"

/-- The operators that bound a value from below. -/
def isLowerBound : CompareOp → Bool
  | .gt | .ge => true
  | _ => false

/-- The operators that bound a value from above. -/
def isUpperBound : CompareOp → Bool
  | .lt | .le => true
  | _ => false

/-- The operators that bound a value from one side. -/
def isRange (op : CompareOp) : Bool := op.isLowerBound || op.isUpperBound

/-- The operators whose literal is a pattern. -/
def isRegex : CompareOp → Bool
  | .regex | .notRegex => true
  | _ => false

/-- The operators that hold where another one fails. -/
def isNegative : CompareOp → Bool
  | .ne | .notRegex => true
  | _ => false

end CompareOp

/-- One field compared with one literal. -/
structure Comparison where
  op : CompareOp
  field : String
  literal : Literal
deriving DecidableEq, Hashable, Repr, Inhabited

namespace Comparison

/-- The same comparison under another operator. -/
def withOp (c : Comparison) (op : CompareOp) : Comparison := { c with op }

/-- The same comparison with other text. -/
def withValue (c : Comparison) (value : String) : Comparison := { c with literal := .string value }

end Comparison

end IndexQuery
