import IndexQuery.Json.Basic

/-! # Writing JSON

    Values are written on several lines, two spaces to a level. Empty arrays and
    objects stay on one line.
-/

namespace IndexQuery.Json

/-! ## Strings -/

/-- The hexadecimal digit of a number below sixteen, in lower case. -/
def hexDigit (n : Nat) : Char := if n < 10 then Char.ofNat (0x30 + n) else Char.ofNat (0x57 + n)

/-- A character between quotes. Only quotes, backslashes and control characters
    are escaped. -/
def escapeChar (c : Char) : List Char :=
  match c with
  | '"' => ['\\', '"']
  | '\\' => ['\\', '\\']
  | '\n' => ['\\', 'n']
  | '\r' => ['\\', 'r']
  | '\t' => ['\\', 't']
  | '\x08' => ['\\', 'b']
  | '\x0c' => ['\\', 'f']
  | c =>
    if c.toNat < 0x20 then ['\\', 'u', '0', '0', hexDigit (c.toNat / 16), hexDigit (c.toNat % 16)]
    else [c]

/-- A string. Half of a surrogate pair is written for one that stands for no text. -/
def writeString : Option String → List Char
  | some text => '"' :: text.toList.flatMap escapeChar ++ ['"']
  | none => ['"', '\\', 'u', 'd', '8', '0', '0', '"']

/-! ## Values -/

/-- The break before a line at the given level. -/
def lineBreak (level : Nat) : List Char := '\n' :: List.replicate (2 * level) ' '

mutual

/-- A value whose first line is at the given level. -/
def write (level : Nat) : Json → List Char
  | .null => "null".toList
  | .bool b => (toString b).toList
  | .number text => text.toList
  | .string text => writeString text
  | .array [] => ['[', ']']
  | .array (item :: items) =>
    '[' :: lineBreak (level + 1) ++ write (level + 1) item ++ writeItems (level + 1) items ++
      lineBreak level ++ [']']
  | .object [] => ['\x7b', '\x7d']
  | .object ((key, value) :: members) =>
    '\x7b' :: lineBreak (level + 1) ++ writeString key ++ [':', ' '] ++ write (level + 1) value ++
      writeMembers (level + 1) members ++ lineBreak level ++ ['\x7d']

/-- The items of an array after the first. -/
def writeItems (level : Nat) : List Json → List Char
  | [] => []
  | item :: items => ',' :: lineBreak level ++ write level item ++ writeItems level items

/-- The members of an object after the first. -/
def writeMembers (level : Nat) : List (Option String × Json) → List Char
  | [] => []
  | (key, value) :: members =>
    ',' :: lineBreak level ++ writeString key ++ [':', ' '] ++ write level value ++
      writeMembers level members

end

/-- The text of a value. -/
def render (j : Json) : String := String.ofList (write 0 j)

end IndexQuery.Json
