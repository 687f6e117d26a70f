import IndexQuery.Normalizer.Basic
import IndexQuery.Sorted.Map
import IndexQuery.Text.Escaped

/-! # What is known of the fields

    A catalog says of each field how its values are normalized and where they are
    kept. The passes read it and never change it.
-/

namespace IndexQuery

/-- What is known of one field. -/
structure FieldInfo where
  /-- The normalizers, in the order of registration. -/
  normalizers : List Normalizer := []
  /-- The index has entries for the field. -/
  indexed : Bool := false
  /-- The values are kept in the index alone. -/
  indexOnly : Bool := false
  /-- The records hold no value of the field. -/
  nonEvent : Bool := false
  /-- The field has term frequency entries. -/
  termFrequency : Bool := false
  /-- The datatypes that have the field, none for all of them. -/
  datatypes : SortedSet String := ∅
deriving Inhabited

namespace FieldInfo

/-- The field with its values in the index alone, hence indexed and absent from
    the records. -/
def asIndexOnly (info : FieldInfo) : FieldInfo :=
  { info with indexed := true, indexOnly := true, nonEvent := true }

/-- Whether the field occurs in one of the given datatypes, none meaning all. -/
def matchesDatatypes (info : FieldInfo) (filter : SortedSet String) : Bool :=
  filter.isEmpty || info.datatypes.isEmpty || info.datatypes.toList.any filter.contains

/-- A description for diagnostics. -/
def describe (info : FieldInfo) : String :=
  let members (texts : List String) : String := ", ".intercalate (texts.map Text.escaped)
  "FieldMetadata \x7b normalizers: [" ++ members (info.normalizers.map Normalizer.name) ++
    "], indexed: " ++ toString info.indexed ++ ", index_only: " ++ toString info.indexOnly ++
    ", non_event: " ++ toString info.nonEvent ++ ", term_frequency: " ++
    toString info.termFrequency ++ ", datatypes: \x7b" ++ members info.datatypes.toList ++
    "\x7d \x7d"

end FieldInfo

/-- What is known of every field. -/
structure Catalog where
  fields : SortedMap String FieldInfo := ∅
deriving Inhabited

namespace Catalog

/-- What is known of a field. -/
def field? (catalog : Catalog) (name : String) : Option FieldInfo := catalog.fields.get? name

/-- The names of the known fields. -/
def fieldNames (catalog : Catalog) : List String := catalog.fields.keys

/-- The fields that satisfy a test. -/
def select (catalog : Catalog) (p : FieldInfo → Bool) : SortedSet String :=
  (catalog.fields.filter fun _ info => p info).keySet

/-- The normalizers of a field, in the order of registration. -/
def normalizersFor (catalog : Catalog) (name : String) : List Normalizer :=
  match catalog.field? name with
  | some info => info.normalizers
  | none => []

/-- The fields with index entries. -/
def indexedFields (catalog : Catalog) : SortedSet String := catalog.select (·.indexed)

/-- The fields with term frequency entries. -/
def termFrequencyFields (catalog : Catalog) : SortedSet String := catalog.select (·.termFrequency)

/-- The fields of the given datatypes whose values are in the index alone. -/
def indexOnlyFields (catalog : Catalog) (datatypes : SortedSet String) : SortedSet String :=
  catalog.select fun info => info.indexOnly && info.matchesDatatypes datatypes

/-- The fields of the given datatypes without a value in the records. -/
def nonEventFields (catalog : Catalog) (datatypes : SortedSet String) : SortedSet String :=
  catalog.select fun info => info.nonEvent && info.matchesDatatypes datatypes

end Catalog

/-- The sets of fields that decide where a comparison can be answered. -/
structure FieldSets where
  indexed : SortedSet String := ∅
  indexOnly : SortedSet String := ∅
  nonEvent : SortedSet String := ∅
deriving DecidableEq, Inhabited

namespace FieldSets

/-- The sets for the given datatypes. A field that is in the index alone is
    absent from the records. -/
def resolve (catalog : Catalog) (datatypes : SortedSet String) : FieldSets :=
  let indexOnly := catalog.indexOnlyFields datatypes
  { indexed := catalog.indexedFields
    indexOnly
    nonEvent := (catalog.nonEventFields datatypes).union indexOnly }

/-- The sets with more fields whose values are in the index alone. -/
def withIndexOnly (sets : FieldSets) (fields : SortedSet String) : FieldSets :=
  { indexed := sets.indexed.union fields
    indexOnly := sets.indexOnly.union fields
    nonEvent := sets.nonEvent.union fields }

end FieldSets

end IndexQuery
