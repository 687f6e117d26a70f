import IndexQuery.Sorted.Map

/-! # Documents

    A document holds the values that a match has collected, for each field.
-/

namespace IndexQuery

/-- The values of the fields of a record. -/
structure Document where
  fields : SortedMap String (SortedSet String) := ∅
deriving DecidableEq, Inhabited

namespace Document

instance : EmptyCollection Document := ⟨{}⟩

/-- The values of a field. -/
def values (d : Document) (field : String) : SortedSet String := (d.fields.get? field).getD ∅

/-- Whether the document has the field. -/
def contains (d : Document) (field : String) : Bool := d.fields.contains field

/-- Whether the document has no field. -/
def isEmpty (d : Document) : Bool := d.fields.isEmpty

/-- The document with one more value of a field. -/
def insert (d : Document) (field value : String) : Document :=
  ⟨d.fields.put field ((d.values field).insert value)⟩

/-- The document with more values of a field. -/
def insertAll (d : Document) (field : String) (values : List String) : Document :=
  values.foldl (fun d v => d.insert field v) d

/-- The document with all values of another one. -/
def extend (d other : Document) : Document :=
  ⟨other.fields.entries.foldl
    (fun fields (field, values) => fields.put field ((d.values field).union values)) d.fields⟩

/-- A value is in the document after it was inserted, and so is all that was there. -/
theorem mem_values_insert {d : Document} {field value field' value' : String} :
    value' ∈ (d.insert field value).values field' ↔
      (field' = field ∧ value' = value) ∨ value' ∈ d.values field' := by
  by_cases h : field' = field
  · subst h
    simp [values, insert, SortedMap.get?_put]
  · simp [values, insert, SortedMap.get?_put, h]

end Document

end IndexQuery
