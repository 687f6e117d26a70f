/-! # JSON values

    Values as they are written: numbers keep their text, and objects keep the
    order and the repetitions of their members.
-/

namespace IndexQuery

/-- A JSON value. Strings and keys are `none` when an escape in them names half
    of a surrogate pair, for then they stand for no text. -/
inductive Json where
  | null
  | bool (value : Bool)
  | number (text : String)
  | string (text : Option String)
  | array (items : List Json)
  | object (members : List (Option String × Json))
deriving Inhabited

namespace Json

/-- A string for a text. -/
def ofString (text : String) : Json := .string (some text)

/-- A number for a count. -/
def ofNat (n : Nat) : Json := .number (toString n)

/-- An array of strings. -/
def ofStrings (texts : List String) : Json := .array (texts.map ofString)

/-- An object with the given members. -/
def ofMembers (members : List (String × Json)) : Json :=
  .object (members.map fun (key, value) => (some key, value))

/-! ## Taking values apart -/

/-- The text of a string. -/
def text? : Json → Option String
  | .string text => text
  | _ => none

/-- The items of an array. -/
def items? : Json → Option (List Json)
  | .array items => some items
  | _ => none

/-- The members of an object whose keys are texts. -/
def members? : Json → Option (List (String × Json))
  | .object members => members.mapM fun (key, value) => key.map fun key => (key, value)
  | _ => none

/-- The texts of an array of strings. -/
def texts? (j : Json) : Option (List String) := j.items?.bind fun items => items.mapM text?

/-- The values of a record's fields, `none` for a missing one. A record is written
    as an object, in which a field must not be repeated and unknown members do not
    count, or as the array of its fields, which may end early. -/
def fields? (names : List String) : Json → Option (List (Option Json))
  | .object members => do
    let members ← (Json.object members).members?
    if names.all fun name => (members.filter (·.1 == name)).length ≤ 1 then
      return names.map fun name => members.lookup name
    else none
  | .array items =>
    if items.length ≤ names.length then
      some (names.zipIdx.map fun (_, i) => items[i]?)
    else none
  | _ => none

end Json

end IndexQuery
