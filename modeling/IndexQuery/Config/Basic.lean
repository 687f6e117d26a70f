import IndexQuery.Composite.Alphabet
import IndexQuery.Composite.Mapping
import IndexQuery.Severity
import IndexQuery.Sorted.Map

/-! # Configurations

    A configuration holds every setting that the passes consult. It is consistent
    when `fault?` finds nothing wrong with it.
-/

namespace IndexQuery

/-- The settings of the passes. -/
structure Config where
  /-- How many contributing terms a summary shows for each state. -/
  maxTermsToPrint : Nat := 3
  /-- Fields whose clauses are kept when no normalizer accepts them. -/
  lenientFields : SortedSet String := ∅
  /-- Fields whose clauses are left to evaluation when no normalizer accepts them. -/
  strictFields : SortedSet String := ∅
  composites : List Mapping := []
  /-- The alphabets of fixed-length fields. -/
  fixedLengthFields : SortedMap String Alphabet := ∅
  beginDate : Option Instant := none
  endDate : Option Instant := none
  indexOnlyFields : SortedSet String := ∅
  termFrequencyFields : SortedSet String := ∅
  aggregationFields : SortedSet String := ∅
  /-- The datatypes that a query is restricted to, none for all. -/
  datatypeFilter : SortedSet String := ∅
deriving DecidableEq, Inhabited

/-- What makes a configuration inconsistent. -/
inductive ConfigFault where
  | datesReversed (start finish : Instant)
  | lenientAndStrict (field : String)
  | fewComponents (composite : String)
  | definedTwice (composite : String)
  | repeatedComponent (composite : String)
deriving DecidableEq, Repr, Inhabited

/-- The wording of a fault. -/
def ConfigFault.text : ConfigFault → String
  | .datesReversed start finish =>
    "begin date " ++ start.describe ++ " is after end date " ++ finish.describe
  | .lenientAndStrict field => "field '" ++ field ++ "' cannot be both lenient and strict"
  | .fewComponents name => "composite '" ++ name ++ "' needs at least two components"
  | .definedTwice name => "composite '" ++ name ++ "' is defined more than once"
  | .repeatedComponent name => "composite '" ++ name ++ "' repeats a component"

/-- Why a configuration cannot be had. -/
inductive ConfigError where
  /-- The text is not JSON for a configuration. -/
  | json
  /-- The file cannot be read. -/
  | unreadable
  | invalid (fault : ConfigFault)
deriving DecidableEq, Repr, Inhabited

namespace ConfigError

/-- The stable code of the error. -/
def code : ConfigError → String
  | .json => "SHARDQUERY_CONFIG_JSON"
  | .unreadable => "SHARDQUERY_CONFIG_IO"
  | .invalid _ => "SHARDQUERY_CONFIG_INVALID"

/-- The wording of the error. -/
def message : ConfigError → String
  | .json => "Invalid configuration JSON"
  | .unreadable => "Failed to access configuration file"
  | .invalid fault => "Invalid configuration: " ++ fault.text

/-- A configuration can be corrected. -/
def severity (_ : ConfigError) : Severity := .reject

end ConfigError

namespace Config

/-- Whether the clauses of a field are kept when no normalizer accepts them. -/
def isLenient (config : Config) (field : String) : Bool := config.lenientFields.contains field

/-- Whether the clauses of a field are left to evaluation when no normalizer
    accepts them. -/
def isStrict (config : Config) (field : String) : Bool := config.strictFields.contains field

/-- The alphabet of a fixed-length field. -/
def alphabet? (config : Config) (field : String) : Option Alphabet :=
  config.fixedLengthFields.get? field

/-! ## Consistency -/

/-- A beginning after the end. -/
def dateFault? (config : Config) : Option ConfigFault :=
  match config.beginDate, config.endDate with
  | some start, some finish =>
    if finish.before start then some (.datesReversed start finish) else none
  | _, _ => none

/-- The first field that is both lenient and strict. -/
def policyFault? (config : Config) : Option ConfigFault :=
  (config.lenientFields.toList.find? config.strictFields.contains).map .lenientAndStrict

/-- The first fault among composite fields; `seen` holds the names before them. -/
def compositeFault? (seen : List String) : List Mapping → Option ConfigFault
  | [] => none
  | m :: rest =>
    if m.components.length < 2 then some (.fewComponents m.name)
    else if seen.contains m.name then some (.definedTwice m.name)
    else if m.components.eraseDups.length ≠ m.components.length then
      some (.repeatedComponent m.name)
    else compositeFault? (m.name :: seen) rest

/-- The first fault of a configuration. -/
def fault? (config : Config) : Option ConfigFault :=
  config.dateFault?.or <| config.policyFault?.or <| compositeFault? [] config.composites

end Config

end IndexQuery
