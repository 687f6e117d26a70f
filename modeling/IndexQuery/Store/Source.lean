import IndexQuery.Sorted.Map
import IndexQuery.Store.Record

/-! # Sources and cursors

    A source holds the entries of an index in the order of their keys. A cursor
    stands on an entry of a range and moves to the next one until the range ends.
    It remembers the range and the key, from which every step searches the source anew.
    Cursors on one source have places of their own.
-/

namespace IndexQuery

/-- The entries of an index. -/
structure Source where
  entries : SortedMap Key String := ∅
deriving DecidableEq, Inhabited

namespace Source

/-- The number of entries. -/
def size (s : Source) : Nat := s.entries.size

/-- Whether there is no entry. -/
def isEmpty (s : Source) : Bool := s.entries.isEmpty

/-- The source with one more entry, in the stead of one with the same key. -/
def write (s : Source) (key : Key) (value : String) : Source := ⟨s.entries.put key value⟩

/-- The source with a field index entry. -/
def writeField (s : Source) (r : RecordId) (field value : String) (timestamp : Int64) : Source :=
  s.write (r.fieldKey field value timestamp) ""

/-- The source with a term frequency entry. -/
def writeTerm (s : Source) (r : RecordId) (field value : String) (timestamp : Int64) : Source :=
  s.write (r.termKey field value timestamp) ""

/-- The source with both entries of a value. -/
def writeBoth (s : Source) (r : RecordId) (field value : String) (timestamp : Int64) : Source :=
  (s.writeField r field value timestamp).writeTerm r field value timestamp

/-- The first key from another one on, or behind that one unless it is included. If this
    is not before the end of the range, there is none. -/
def locate? (s : Source) (range : KeyRange) (start : Key) (included : Bool) : Option Key :=
  (s.entries.keys.find? (·.isFrom start included)).filter range.isBeforeEnd

end Source

/-- A place in a source. -/
structure Cursor where
  source : Source
  /-- The range that was sought last. -/
  range? : Option KeyRange := none
  /-- The key that the cursor stands on, none when the range is used up. -/
  key? : Option Key := none
deriving DecidableEq, Inhabited

namespace Cursor

/-- The value that the cursor stands on. -/
def value? (c : Cursor) : Option String := c.key?.bind c.source.entries.get?

/-- The cursor on the first key of a range. -/
def seek (c : Cursor) (range : KeyRange) : Cursor :=
  ⟨c.source, some range, c.source.locate? range range.start range.startInclusive⟩

/-- The cursor on the next key of its range. -/
def advance (c : Cursor) : Cursor :=
  match c.key? with
  | none => c
  | some key => { c with key? := c.range?.bind fun range => c.source.locate? range key false }

/-- A cursor on the same source that stands nowhere. -/
def fresh (c : Cursor) : Cursor := ⟨c.source, none, none⟩

/-- The keys that the cursor stands on in turn, up to a number of them. -/
def take : Nat → Cursor → List Key
  | 0, _ => []
  | n + 1, c =>
    match c.key? with
    | none => []
    | some key => key :: take n c.advance

/-- The keys of a range. There are no more of them than the source has entries. -/
def scan (c : Cursor) (range : KeyRange) : List Key := take c.source.size (c.seek range)

end Cursor

end IndexQuery
