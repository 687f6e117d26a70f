/-! # Markers

    A marker attaches a processing directive to the query beneath it. In query
    text it is an assignment conjoined with what it marks:

    * `((_Delayed_ = true) && (FOO == 'bar'))`
    * `((_Drop_ = 'reason') && (FOO == 'bar'))`
-/

namespace IndexQuery

/-- The directives that a query can carry. -/
inductive Marker where
  /-- A lower and an upper bound on one field, meant as a single range. -/
  | bounded
  /-- Checked on the record and not looked up in the index. -/
  | delayed
  /-- Never looked up in the index. -/
  | evaluationOnly
  /-- The expansion of a value ran into its limit. -/
  | exceededValue
  /-- The expansion of a term ran into its limit. -/
  | exceededTerm
  /-- A disjunction of values ran into its limit. -/
  | exceededOr
  /-- The index is known to lack entries for this term. -/
  | indexHole
  /-- A clause that no normalizer accepts is kept. -/
  | lenient
  /-- A clause that no normalizer accepts is left to evaluation. -/
  | strict
  /-- A list of terms. -/
  | list
  /-- A single term. -/
  | term
  /-- An excluded clause, which is never true. -/
  | drop
deriving DecidableEq, Hashable, Repr, Inhabited

namespace Marker

/-- Every marker, in the order of declaration. -/
def all : List Marker :=
  [.bounded, .delayed, .evaluationOnly, .exceededValue, .exceededTerm, .exceededOr, .indexHole,
   .lenient, .strict, .list, .term, .drop]

/-- The name of the marker in query text. -/
def label : Marker → String
  | .bounded => "_Bounded_"
  | .delayed => "_Delayed_"
  | .evaluationOnly => "_Eval_"
  | .exceededValue => "_Value_"
  | .exceededTerm => "_ExceededTerm_"
  | .exceededOr => "_ExceededOr_"
  | .indexHole => "_Hole_"
  | .lenient => "_Lenient_"
  | .strict => "_Strict_"
  | .list => "_List_"
  | .term => "_Term_"
  | .drop => "_Drop_"

/-- The marker with a given name. -/
def ofLabel? (label : String) : Option Marker := all.find? (·.label == label)

/-- Each marker is found under its own name. -/
theorem ofLabel?_label (m : Marker) : ofLabel? m.label = some m := by
  cases m <;> decide

/-- The place of the marker in `all`. -/
def position (m : Marker) : Nat := all.idxOf m

/-- The markers that keep what they mark away from the index. -/
def isEvaluationDirective : Marker → Bool
  | .delayed | .evaluationOnly | .exceededTerm | .indexHole => true
  | _ => false

/-- The markers of an expansion that ran into its limit. -/
def isExceeded : Marker → Bool
  | .exceededValue | .exceededTerm | .exceededOr => true
  | _ => false

end Marker

end IndexQuery
