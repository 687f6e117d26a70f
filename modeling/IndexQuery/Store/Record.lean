import IndexQuery.Store.Key
import IndexQuery.Text.LastSplit

/-! # Records and their index entries

    A record has two kinds of entries in the index of its row:

    * field index entries, whose qualifier is the value, the datatype and the
      identifier, joined by NUL; they sort by value;
    * term frequency entries, whose qualifier is the datatype, the identifier, the
      value and the field, joined by NUL; they sort by record.

    A value may hold NUL itself, hence the qualifiers are split from the side where
    it does not stand.
-/

namespace IndexQuery

/-- The separator within qualifiers. -/
def nul : Char := '\x00'

/-- Texts joined by the separator of qualifiers. -/
def joinNul (texts : List String) : String := (String.singleton nul).intercalate texts

/-- Where a record is found. -/
structure RecordId where
  row : String
  datatype : String
  uid : String
deriving DecidableEq, Repr, Inhabited

/-- What a field index entry says: a record has a value. -/
structure FieldEntry where
  value : String
  datatype : String
  uid : String
deriving DecidableEq, Repr, Inhabited

namespace FieldEntry

/-- The family of the entries of a field. -/
def family (field : String) : String := joinNul ["fi", field]

/-- The qualifier of an entry. -/
def qualifier (e : FieldEntry) : String := joinNul [e.value, e.datatype, e.uid]

/-- The entry with a given qualifier. -/
def ofQualifier? (qualifier : String) : Option FieldEntry := do
  let (front, uid) ← Text.splitLast? nul qualifier.toList
  let (value, datatype) ← Text.splitLast? nul front
  return ⟨String.ofList value, String.ofList datatype, String.ofList uid⟩

end FieldEntry

/-- What a term frequency entry of a known record says: a field has a value. -/
structure TermEntry where
  value : String
  field : String
deriving DecidableEq, Repr, Inhabited

/-- The family of the term frequency entries. -/
def TermEntry.family : String := "tf"

namespace RecordId

/-- How a record is shown. -/
def describe (r : RecordId) : String := "/".intercalate [r.row, r.datatype, r.uid]

/-- The beginning of the qualifiers of all term frequency entries of a record. -/
def termPrefix (r : RecordId) : String := joinNul [r.datatype, r.uid, ""]

/-- The key of a field index entry of the record. -/
def fieldKey (r : RecordId) (field value : String) (timestamp : Int64) : Key :=
  { row := r.row
    family := FieldEntry.family field
    qualifier := FieldEntry.qualifier ⟨value, r.datatype, r.uid⟩
    timestamp }

/-- The key of a term frequency entry of the record. -/
def termKey (r : RecordId) (field value : String) (timestamp : Int64) : Key :=
  { row := r.row
    family := TermEntry.family
    qualifier := r.termPrefix ++ joinNul [value, field]
    timestamp }

/-- Whether a field index entry belongs to the record. -/
def owns (r : RecordId) (e : FieldEntry) : Bool := e.datatype = r.datatype && e.uid = r.uid

/-- The term frequency entry of the record with a given qualifier. -/
def termEntry? (r : RecordId) (qualifier : String) : Option TermEntry := do
  let rest ← r.termPrefix.toList.isPrefixOf? qualifier.toList
  let (value, field) ← Text.splitLast? nul rest
  return ⟨String.ofList value, String.ofList field⟩

/-- The character that follows the separator: text that ends in it lies behind
    every qualifier that goes on with the separator instead. -/
def afterSeparator : String := "\x01"

/-- The range of the field index entries with values from `lower` to `upper`. -/
def fieldRange (r : RecordId) (field lower upper : String) : KeyRange :=
  .qualifiers r.row (FieldEntry.family field) lower (upper ++ afterSeparator)

/-- The range of the term frequency entries of the record. -/
def termRange (r : RecordId) : KeyRange :=
  let stem := (r.termPrefix.toList.reverse.dropWhile (· = nul)).reverse
  .qualifiers r.row TermEntry.family r.termPrefix (String.ofList stem ++ afterSeparator)

end RecordId

end IndexQuery
