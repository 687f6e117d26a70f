import IndexQuery.Json.Basic

/-! # Tokens of JSON text -/

namespace IndexQuery.Json

/-- The tokens. -/
inductive Token where
  | openArray
  | closeArray
  | openObject
  | closeObject
  | comma
  | colon
  | null
  | bool (value : Bool)
  | number (text : String)
  | string (text : Option String)
deriving DecidableEq, Repr, Inhabited

/-! ## Numbers -/

/-- The length of the digits in front. -/
def digitCount (cs : List Char) : Nat := (cs.takeWhile Char.isDigit).length

/-- The length of the whole part in front: a zero, or digits that start with none. -/
def wholeLength? : List Char → Option Nat
  | '0' :: _ => some 1
  | cs => if digitCount cs = 0 then none else some (digitCount cs)

/-- The length of the fraction in front, which may be missing. -/
def fractionLength? : List Char → Option Nat
  | '.' :: rest => if digitCount rest = 0 then none else some (1 + digitCount rest)
  | _ => some 0

/-- The length of a sign in front. -/
def signLength : List Char → Nat
  | '+' :: _ | '-' :: _ => 1
  | _ => 0

/-- The length of the exponent in front, which may be missing. -/
def exponentLength? : List Char → Option Nat
  | c :: rest =>
    if c = 'e' || c = 'E' then
      let sign := signLength rest
      let digits := digitCount (rest.drop sign)
      if digits = 0 then none else some (1 + sign + digits)
    else some 0
  | [] => some 0

/-- The length of the number in front. -/
def numberLength? (cs : List Char) : Option Nat := do
  let sign := if cs.head? = some '-' then 1 else 0
  let whole ← wholeLength? (cs.drop sign)
  let fraction ← fractionLength? (cs.drop (sign + whole))
  let exponent ← exponentLength? (cs.drop (sign + whole + fraction))
  return sign + whole + fraction + exponent

/-! ## Strings -/

/-- The value of a hexadecimal digit. -/
def hexValue? (c : Char) : Option Nat :=
  if c.isDigit then some (c.toNat - 0x30)
  else if 'a' ≤ c && c ≤ 'f' then some (c.toNat - 0x57)
  else if 'A' ≤ c && c ≤ 'F' then some (c.toNat - 0x37)
  else none

/-- The value of four hexadecimal digits. -/
def hexValue4? (a b c d : Char) : Option Nat := do
  return ((← hexValue? a) * 16 + (← hexValue? b)) * 256 + (← hexValue? c) * 16 + (← hexValue? d)

/-- The character that a backslash and another character stand for. -/
def unescape? : Char → Option Char
  | '"' => some '"'
  | '\\' => some '\\'
  | '/' => some '/'
  | 'b' => some '\x08'
  | 'f' => some '\x0c'
  | 'n' => some '\n'
  | 'r' => some '\r'
  | 't' => some '\t'
  | _ => none

/-- The first code unit of a surrogate pair. -/
def isHighSurrogate (n : Nat) : Bool := 0xD800 ≤ n && n < 0xDC00

/-- The second code unit of a surrogate pair. -/
def isLowSurrogate (n : Nat) : Bool := 0xDC00 ≤ n && n < 0xE000

/-- The code unit that an escape `uXXXX` names. -/
def codeUnit? : List Char → Option Nat
  | 'u' :: a :: b :: c :: d :: _ => hexValue4? a b c d
  | _ => none

/-- The second half of a surrogate pair, when its escape follows. -/
def lowHalf? : List Char → Option Nat
  | '\\' :: rest => (codeUnit? rest).filter isLowSurrogate
  | _ => none

/-- Reads what follows a backslash: the character it stands for, `none` for half
    of a surrogate pair, and the number of characters read. -/
def readEscape : List Char → Option (Option Char × Nat)
  | [] => none
  | c :: rest =>
    if c = 'u' then do
      let unit ← codeUnit? (c :: rest)
      if isHighSurrogate unit then
        match lowHalf? (rest.drop 4) with
        | some low =>
          return (some (Char.ofNat (0x10000 + (unit - 0xD800) * 0x400 + (low - 0xDC00))), 11)
        | none => return (none, 5)
      else if isLowSurrogate unit then return (none, 5)
      else return (some (Char.ofNat unit), 5)
    else (unescape? c).map fun c => (some c, 1)

/-- Puts a character in front of a text; half of a surrogate pair spoils it. -/
def prepend (c : Option Char) (text : Option (List Char)) : Option (List Char) :=
  c.bind fun c => text.map (c :: ·)

/-- Reads a string up to its closing quote and counts the characters read, of which
    the first `taken` belong to the escape before. The text is `none` when half of a
    surrogate pair stands in it. -/
def readString (taken : Nat) : List Char → Option (Option (List Char) × Nat)
  | [] => none
  | c :: rest => do
    if 0 < taken then
      let (text, n) ← readString (taken - 1) rest
      return (text, n + 1)
    else if c = '"' then return (some [], 1)
    else if c = '\\' then
      let (escaped, extra) ← readEscape rest
      let (text, n) ← readString extra rest
      return (prepend escaped text, n + 1)
    else if c.toNat < 0x20 then none
    else
      let (text, n) ← readString 0 rest
      return (prepend (some c) text, n + 1)

/-! ## Tokens -/

/-- White space between tokens. -/
def isSpace (c : Char) : Bool := c == ' ' || c == '\n' || c == '\t' || c == '\r'

/-- The token that starts with `first` and the number of characters it takes
    beyond the first. -/
def readToken (first : Char) (rest : List Char) : Option (Token × Nat) :=
  match first, rest with
  | '[', _ => some (.openArray, 0)
  | ']', _ => some (.closeArray, 0)
  | '\x7b', _ => some (.openObject, 0)
  | '\x7d', _ => some (.closeObject, 0)
  | ',', _ => some (.comma, 0)
  | ':', _ => some (.colon, 0)
  | 'n', 'u' :: 'l' :: 'l' :: _ => some (.null, 3)
  | 't', 'r' :: 'u' :: 'e' :: _ => some (.bool true, 3)
  | 'f', 'a' :: 'l' :: 's' :: 'e' :: _ => some (.bool false, 4)
  | '"', rest => (readString 0 rest).map fun (text, n) => (.string (text.map String.ofList), n)
  | first, rest =>
    (numberLength? (first :: rest)).map fun n =>
      (.number (String.ofList ((first :: rest).take n)), n - 1)

/-- The tokens of a text, of which the first `taken` characters belong to the token
    before. -/
def scan? (taken : Nat) : List Char → Option (List Token)
  | [] => some []
  | c :: rest =>
    if 0 < taken then scan? (taken - 1) rest
    else if isSpace c then scan? 0 rest
    else do
      let (token, n) ← readToken c rest
      return token :: (← scan? n rest)

/-- The tokens of a text. -/
def tokens? (cs : List Char) : Option (List Token) := scan? 0 cs

end IndexQuery.Json
