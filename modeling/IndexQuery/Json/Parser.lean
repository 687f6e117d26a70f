import IndexQuery.Json.Token

/-! # Reading JSON

    A text is read token by token. The arrays and objects that are open form a stack,
    the innermost first, each with what was read of it, the last part first.
-/

namespace IndexQuery.Json

/-- An array or object that is open at a value. -/
inductive Frame where
  | array (items : List Json)
  /-- The value is that of the last key. -/
  | object (members : List (Option String × Json)) (key : Option String)
deriving Inhabited

/-- What was read, by what has to follow. -/
inductive Reading where
  | value (frames : List Frame)
  /-- A value, or the end of an array that has none. -/
  | firstItem (frames : List Frame)
  /-- A key, or the end of an object that has none. -/
  | firstKey (frames : List Frame)
  | key (members : List (Option String × Json)) (frames : List Frame)
  | colon (members : List (Option String × Json)) (key : Option String) (frames : List Frame)
  /-- A comma or a closing bracket behind a value, or the end of the text. -/
  | behind (value : Json) (frames : List Frame)
deriving Inhabited

namespace Reading

/-- Reads the beginning of a value. -/
def startValue? (frames : List Frame) : Token → Option Reading
  | .null => some (.behind .null frames)
  | .bool b => some (.behind (.bool b) frames)
  | .number text => some (.behind (.number text) frames)
  | .string text => some (.behind (.string text) frames)
  | .openArray => some (.firstItem frames)
  | .openObject => some (.firstKey frames)
  | _ => none

/-- Reads a token. -/
def read? : Reading → Token → Option Reading
  | .value frames, t => startValue? frames t
  | .firstItem frames, .closeArray => some (.behind (.array []) frames)
  | .firstItem frames, t => startValue? (.array [] :: frames) t
  | .firstKey frames, .closeObject => some (.behind (.object []) frames)
  | .firstKey frames, .string name => some (.colon [] name frames)
  | .key members frames, .string name => some (.colon members name frames)
  | .colon members name frames, .colon => some (.value (.object members name :: frames))
  | .behind v (.array items :: frames), .comma => some (.value (.array (v :: items) :: frames))
  | .behind v (.array items :: frames), .closeArray =>
    some (.behind (.array (v :: items).reverse) frames)
  | .behind v (.object members name :: frames), .comma => some (.key ((name, v) :: members) frames)
  | .behind v (.object members name :: frames), .closeObject =>
    some (.behind (.object ((name, v) :: members).reverse) frames)
  | _, _ => none

/-- The value, once there are no more tokens. -/
def finish? : Reading → Option Json
  | .behind v [] => some v
  | _ => none

end Reading

/-- The value that a text writes. -/
def parse? (text : String) : Option Json := do
  let reading ← (← tokens? text.toList).foldlM Reading.read? (.value [])
  reading.finish?

end IndexQuery.Json
