import IndexQuery.Regex.Property
import IndexQuery.Severity
import IndexQuery.Store.TimeWindow

/-! # Options and errors of plans -/

namespace IndexQuery

/-- What decides how a query becomes a plan. -/
structure PlanOptions where
  termFrequencyFields : SortedSet String := ∅
  aggregationFields : SortedSet String := ∅
  indexOnlyFields : SortedSet String := ∅
  /-- The fields with index entries, none for every field. -/
  indexedFields : Option (SortedSet String) := none
  window : Option TimeWindow := none
  /-- Refuses patterns that would have every value of a field looked at. -/
  fullScanDisabled : Bool := false
  /-- The properties that patterns can name. -/
  properties : PropertyTable := CharSet.ofProperty?
deriving Inhabited

namespace PlanOptions

/-- The options of a configuration. -/
def ofConfig (config : Config) : PlanOptions :=
  { termFrequencyFields := config.termFrequencyFields
    aggregationFields := config.aggregationFields
    indexOnlyFields := config.indexOnlyFields
    window := TimeWindow.ofConfig config }

/-- Whether the index has entries for the field. -/
def isIndexed (o : PlanOptions) (field : String) : Bool :=
  o.indexedFields.all (·.contains field) || o.indexOnlyFields.contains field

/-- Whether the values of the field are collected. Values in the index alone cannot
    be had otherwise. -/
def aggregates (o : PlanOptions) (field : String) : Bool :=
  o.aggregationFields.contains field || o.indexOnlyFields.contains field

end PlanOptions

/-- Why there is no plan. -/
inductive PlanError where
  /-- A test for a missing value on a field that is in the index alone. -/
  | nullIndexOnly (field : String)
  /-- The whole query is the negation of look-ups. -/
  | topLevelNegation (query : String)
  /-- A negation without a look-up beside it that finds the records. -/
  | unanchoredNegation (plan : String)
  /-- No look-up finds the records. -/
  | unanchored (query : String)
  | invalidRegex (field pattern : String)
  /-- A pattern would have every value of the field looked at. -/
  | fullScan (field pattern : String)
deriving DecidableEq, Repr, Inhabited

namespace PlanError

/-- The stable code of the error. -/
def code : PlanError → String
  | .nullIndexOnly _ => "SHARDQUERY_PLAN_NULL_INDEX_ONLY"
  | .topLevelNegation _ => "SHARDQUERY_PLAN_TOP_LEVEL_NEGATION"
  | .unanchoredNegation _ => "SHARDQUERY_PLAN_UNANCHORED_NEGATION"
  | .unanchored _ => "SHARDQUERY_PLAN_UNANCHORED"
  | .invalidRegex .. => "SHARDQUERY_PLAN_INVALID_REGEX"
  | .fullScan .. => "SHARDQUERY_PLAN_UNRESOLVABLE"

/-- The wording of the error. -/
def message : PlanError → String
  | .nullIndexOnly field =>
    "Null comparison on index-only field " ++ field ++ " has no lookup to compile"
  | .topLevelNegation query => "Negated lookup cannot be the whole plan: " ++ query
  | .unanchoredNegation plan =>
    "Negated lookup has no positive anchor in its conjunction: " ++ plan
  | .unanchored query => "Nothing in the query can be looked up in the index: " ++ query
  | .invalidRegex field pattern => "Invalid regex '" ++ pattern ++ "' on " ++ field
  | .fullScan field pattern =>
    "Expansion of " ++ field ++ " cannot be resolved: regex '" ++ pattern ++
      "' has no literal prefix and full scans are disabled"

/-- A query without an anchor and a faulty pattern can be corrected; the other
    errors come back with the same query. -/
def severity : PlanError → Severity
  | .unanchored _ | .invalidRegex .. => .reject
  | _ => .fatal

end PlanError

end IndexQuery
