import IndexQuery.Regex.Pattern
import IndexQuery.Store.Record
import IndexQuery.Store.TimeWindow

/-! # Look-ups

    A look-up asks whether the index holds a value of one field of one record that
    passes a test. It names the range of the index where such values are.
-/

namespace IndexQuery

/-- A test of values. -/
inductive ValueTest where
  /-- The value itself. -/
  | point (value : String)
  /-- A value between two others. -/
  | range (lower : String) (lowerInclusive : Bool) (upper : String) (upperInclusive : Bool)
  /-- A value that fits a pattern. -/
  | regex (pattern : Pattern)
deriving DecidableEq

namespace ValueTest

/-- Whether a value passes. -/
def accepts : ValueTest → String → Bool
  | .point expected, value => value = expected
  | .range lower lowerInclusive upper upperInclusive, value =>
    (if lowerInclusive then lower ≤ value else lower < value) &&
      (if upperInclusive then value ≤ upper else value < upper)
  | .regex pattern, value => pattern.accepts value

/-- The least and the greatest text to look at. -/
def bounds : ValueTest → String × String
  | .point value => (value, value)
  | .range lower _ upper _ => (lower, upper)
  | .regex pattern => pattern.front.bounds

/-- Whether the answers of the test are worth remembering. -/
def isCostly : ValueTest → Bool
  | .regex _ => true
  | _ => false

/-- How a test is shown. -/
def describe : ValueTest → String
  | .point value => "== '" ++ value ++ "'"
  | .range lower lowerInclusive upper upperInclusive =>
    (if lowerInclusive then "[" else "(") ++ "'" ++ lower ++ "', '" ++ upper ++ "'" ++
      (if upperInclusive then "]" else ")")
  | .regex pattern => "=~ '" ++ pattern.text ++ "'"

end ValueTest

/-- A look-up of one field of one record. -/
structure Lookup where
  field : String
  test : ValueTest
  record : RecordId
  /-- Whether the values found are collected. -/
  aggregate : Bool := false
  /-- Whether the values to collect are those of the term frequency entries. -/
  termFrequency : Bool := false
  window : Option TimeWindow := none
deriving DecidableEq

namespace Lookup

/-- How a look-up is shown. -/
def describe (l : Lookup) : String :=
  l.field ++ " " ++ l.test.describe ++ if l.aggregate then " +agg" else ""

/-- The range of the field index entries that may pass the test. -/
def scanRange (l : Lookup) : KeyRange :=
  let (lower, upper) := l.test.bounds
  l.record.fieldRange l.field lower upper

/-- Whether an entry was written within the window. -/
def acceptsTime (l : Lookup) (key : Key) : Bool :=
  match l.window with
  | some w => w.accepts key.timestamp
  | none => true

/-- The value that a field index entry of the record holds, if it is within the
    window. -/
def fieldValue? (l : Lookup) (key : Key) : Option String :=
  if l.acceptsTime key then
    ((FieldEntry.ofQualifier? key.qualifier).filter l.record.owns).map FieldEntry.value
  else none

/-- The value of the field that a term frequency entry of the record holds, if it is
    within the window. -/
def termValue? (l : Lookup) (key : Key) : Option String :=
  if l.acceptsTime key then
    ((l.record.termEntry? key.qualifier).filter (·.field = l.field)).map TermEntry.value
  else none

end Lookup

end IndexQuery
