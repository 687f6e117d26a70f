import IndexQuery.Config.Basic
import IndexQuery.Json.Parser
import IndexQuery.Json.Writer

/-! # Configurations as JSON

    A configuration is written as an object with every setting. Reading accepts
    any part of it: what is missing has its default, and what is unknown does not
    count.
-/

namespace IndexQuery

/-! ## Writing -/

/-- An optional instant as JSON. -/
def Instant.toJson? (t : Option Instant) : Json :=
  match t with
  | some t => .ofString t.render
  | none => .null

/-- A composite field as JSON. -/
def Mapping.toJson (m : Mapping) : Json :=
  .ofMembers
    [("name", .ofString m.name), ("components", .ofStrings m.components),
     ("separator", .ofString (String.singleton m.separator)),
     ("transition_date", Instant.toJson? m.transition)]

namespace Config

/-- A configuration as a JSON value. -/
def toJsonValue (c : Config) : Json :=
  .ofMembers
    [("max_terms_to_print", .ofNat c.maxTermsToPrint),
     ("lenient_fields", .ofStrings c.lenientFields.toList),
     ("strict_fields", .ofStrings c.strictFields.toList),
     ("composites", .array (c.composites.map Mapping.toJson)),
     ("fixed_length_fields",
       .ofMembers (c.fixedLengthFields.entries.map fun (f, a) => (f, .ofString a.name))),
     ("begin_date", Instant.toJson? c.beginDate),
     ("end_date", Instant.toJson? c.endDate),
     ("index_only_fields", .ofStrings c.indexOnlyFields.toList),
     ("term_frequency_fields", .ofStrings c.termFrequencyFields.toList),
     ("aggregation_fields", .ofStrings c.aggregationFields.toList),
     ("datatype_filter", .ofStrings c.datatypeFilter.toList)]

/-- The text of a configuration. -/
def toJson (c : Config) : String := c.toJsonValue.render

end Config

/-! ## Reading -/

namespace Json

/-- The largest count. -/
def maxCount : Nat := 18446744073709551615

/-- A count: a number without sign, fraction and exponent that fits 64 bits. -/
def count? : Json → Option Nat
  | .number text => text.toNat?.filter (· ≤ maxCount)
  | _ => none

/-- A set of texts, written as an array. -/
def textSet? (j : Json) : Option (SortedSet String) := j.texts?.map SortedSet.ofList

/-- A string of one character. -/
def char? (j : Json) : Option Char :=
  match j.text?.map String.toList with
  | some [c] => some c
  | _ => none

/-- An instant, or none for `null`. -/
def instant?? : Json → Option (Option Instant)
  | .null => some none
  | j => (j.text?.bind Instant.read?).map some

/-- An alphabet: its name, or an object with its name for a single key and `null`. -/
def alphabet? : Json → Option Alphabet
  | .object [(some name, .null)] => Alphabet.ofName? name
  | j => j.text?.bind Alphabet.ofName?

/-- A map from texts to alphabets, written as an object of which later members win. -/
def alphabets? (j : Json) : Option (SortedMap String Alphabet) := do
  let members ← j.members?
  let entries ← members.mapM fun (key, value) => value.alphabet?.map fun a => (key, a)
  return SortedMap.ofList entries

/-- The value of a field, or the default if it is missing. -/
def orDefault {α : Type} (read : Json → Option α) (default : α) : Option Json → Option α
  | some j => read j
  | none => some default

end Json

/-- Reads a composite field. -/
def Mapping.ofJson? (j : Json) : Option Mapping := do
  match ← j.fields? ["name", "components", "separator", "transition_date"] with
  | [some name, some components, separator, transition] =>
    return { name := ← name.text?
             components := ← components.texts?
             separator := ← Json.orDefault Json.char? defaultSeparator separator
             transition := ← Json.orDefault Json.instant?? none transition }
  | _ => none

namespace Config

/-- Reads a configuration, consistent or not. -/
def ofJsonValue? (j : Json) : Option Config := do
  let names :=
    ["max_terms_to_print", "lenient_fields", "strict_fields", "composites", "fixed_length_fields",
     "begin_date", "end_date", "index_only_fields", "term_frequency_fields", "aggregation_fields",
     "datatype_filter"]
  match ← j.fields? names with
  | [maxTerms, lenient, strict, composites, fixedLength, start, finish, indexOnly, termFrequency,
     aggregation, datatypes] =>
    return { maxTermsToPrint := ← Json.orDefault Json.count? 3 maxTerms
             lenientFields := ← Json.orDefault Json.textSet? ∅ lenient
             strictFields := ← Json.orDefault Json.textSet? ∅ strict
             composites := ← Json.orDefault
               (fun j => j.items?.bind fun items => items.mapM Mapping.ofJson?) [] composites
             fixedLengthFields := ← Json.orDefault Json.alphabets? ∅ fixedLength
             beginDate := ← Json.orDefault Json.instant?? none start
             endDate := ← Json.orDefault Json.instant?? none finish
             indexOnlyFields := ← Json.orDefault Json.textSet? ∅ indexOnly
             termFrequencyFields := ← Json.orDefault Json.textSet? ∅ termFrequency
             aggregationFields := ← Json.orDefault Json.textSet? ∅ aggregation
             datatypeFilter := ← Json.orDefault Json.textSet? ∅ datatypes }
  | _ => none

/-- Reads a configuration from its text, consistent or not. -/
def decode? (text : String) : Option Config := (Json.parse? text).bind ofJsonValue?

/-- Reads a consistent configuration from its text. -/
def ofJson (text : String) : Except ConfigError Config :=
  match decode? text with
  | none => .error .json
  | some config =>
    match config.fault? with
    | none => .ok config
    | some fault => .error (.invalid fault)

/-- Reads a consistent configuration from the contents of a file, if there are any. -/
def ofFile (contents : Option String) : Except ConfigError Config :=
  match contents with
  | none => .error .unreadable
  | some text => ofJson text

end Config

end IndexQuery
