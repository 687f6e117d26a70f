import IndexQuery.Normalizer.FixedText
import IndexQuery.Regex.Footprint
import IndexQuery.Regex.Match
import IndexQuery.Regex.Parser
import IndexQuery.Text.Escaped
import IndexQuery.Unicode.Digit

/-! # Patterns for values

    A pattern is text that was found to be a regular expression; a value fits it
    when it fits as a whole.

    The literal front of a pattern is the text that it starts with. It bounds the
    values that have to be looked at.
-/

namespace IndexQuery

/-- The expression for values that fit a pattern as a whole: the pattern between
    anchors. There must be room for it. -/
def Regex.ofPattern? (table : PropertyTable) (pattern : String) : Option Regex :=
  (parse? table (['^', '(', '?', ':'] ++ pattern.toList ++ [')', '$'])).filter Footprint.fits

/-- A text that is a regular expression. -/
structure Pattern where
  text : String
  regex : Regex
  compiled : ∃ table, Regex.ofPattern? table text = some regex
deriving DecidableEq

namespace Pattern

/-- The pattern that a text writes, given the properties that it can name. -/
def ofText? (table : PropertyTable) (text : String) : Option Pattern :=
  match h : Regex.ofPattern? table text with
  | some regex => some ⟨text, regex, table, h⟩
  | none => none

/-- Whether a value fits the pattern as a whole. -/
def accepts (p : Pattern) (value : String) : Bool := p.regex.isMatch value

/-- A description for diagnostics, with the number of values tried so far. -/
def describe (p : Pattern) (tried : Nat) : String :=
  "RegexMatcher \x7b pattern: " ++ Text.escaped p.text ++ ", cached: " ++ toString tried ++ " \x7d"

end Pattern

/-! ## Literal fronts -/

/-- The text that a pattern starts with. -/
structure LiteralFront where
  text : List Char
  /-- Whether the pattern is nothing but this text. -/
  complete : Bool
deriving DecidableEq, Repr, Inhabited

namespace LiteralFront

/-- A front that ends here. -/
def stop : LiteralFront := ⟨[], false⟩

/-- The front with one more character before it. -/
def prepend (c : Char) (f : LiteralFront) : LiteralFront := { f with text := c :: f.text }

/-- Whether what follows makes the character before it optional. -/
def isOptional : List Char → Bool
  | c :: _ => c == '*' || c == '?' || c == '\x7b'
  | [] => false

/-- The front of a pattern without alternatives. -/
def scan : List Char → LiteralFront
  | [] => ⟨[], true⟩
  | '\\' :: rest =>
    match rest with
    | [] => stop
    | c :: rest =>
      if Unicode.isAlphanumeric c || isOptional rest then stop else (scan rest).prepend c
  | c :: rest =>
    if isMetacharacter c then ⟨[], c == '$' && rest.isEmpty⟩
    else if isOptional rest then stop
    else (scan rest).prepend c

/-- The front of a pattern. There is none if the pattern has alternatives. -/
def ofPattern (pattern : List Char) : LiteralFront :=
  if pattern.contains '|' then stop
  else
    match pattern with
    | '^' :: body => scan body
    | body => scan body

/-- Whether the front bounds nothing. -/
def isTrivial (f : LiteralFront) : Bool := f.text.isEmpty && !f.complete

/-- The greatest character, which no value exceeds. -/
def greatest : Char := Char.ofNat 0x10FFFF

/-- The least and the greatest text to look at for values that start so. -/
def bounds (f : LiteralFront) : String × String :=
  (String.ofList f.text, String.ofList (if f.complete then f.text else f.text ++ [greatest]))

end LiteralFront

/-- The literal front of a pattern. -/
def Pattern.front (p : Pattern) : LiteralFront := .ofPattern p.text.toList

end IndexQuery
