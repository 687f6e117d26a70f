import IndexQuery.Query.Comparison
import IndexQuery.Query.ParseError
import IndexQuery.Query.Printer
import IndexQuery.Unicode.Blank
import IndexQuery.Unicode.Digit

/-! # Tokens of query text

    A text is cut into tokens from left to right. White space separates tokens
    and is skipped; each token keeps the position of its first character.
-/

namespace IndexQuery

/-- The kinds of tokens. -/
inductive TokenKind where
  /-- A field, a function or the label of a marker. -/
  | word (text : String)
  /-- Text that stood between quote marks. -/
  | quoted (text : String)
  | number (text : String)
  | nullKeyword
  | trueKeyword
  | and
  | or
  | not
  | openParen
  | closeParen
  | comma
  | colon
  | assign
  | op (operator : CompareOp)
deriving DecidableEq, Repr, Inhabited

/-- A token as error messages show it. -/
def TokenKind.describe : TokenKind → String
  | .word s | .number s => s
  | .quoted s => "'" ++ s ++ "'"
  | .nullKeyword => "null"
  | .trueKeyword => "true"
  | .and => "&&"
  | .or => "||"
  | .not => "!"
  | .openParen => "("
  | .closeParen => ")"
  | .comma => ","
  | .colon => ":"
  | .assign => "="
  | .op o => o.symbol

/-- A token and the position of its first character. -/
structure Token where
  kind : TokenKind
  position : Nat
deriving DecidableEq, Repr, Inhabited

namespace Token

/-- The error that a token stands where something else was expected. -/
def unexpected (t : Token) (expected : Expected) : ParseError :=
  .unexpectedToken t.position t.kind.describe expected

end Token

/-! ## Lexemes -/

/-- A token kind and the number of characters it takes beyond the first. -/
structure Lexeme where
  kind : TokenKind
  extra : Nat
deriving DecidableEq, Repr, Inhabited

namespace Lexeme

/-- Operators and punctuation, the longer ones first. -/
def symbol? (first : Char) (rest : List Char) : Option Lexeme :=
  match first, rest with
  | '&', '&' :: _ => some ⟨.and, 1⟩
  | '|', '|' :: _ => some ⟨.or, 1⟩
  | '=', '=' :: _ => some ⟨.op .eq, 1⟩
  | '!', '=' :: _ => some ⟨.op .ne, 1⟩
  | '<', '=' :: _ => some ⟨.op .le, 1⟩
  | '>', '=' :: _ => some ⟨.op .ge, 1⟩
  | '=', '~' :: _ => some ⟨.op .regex, 1⟩
  | '!', '~' :: _ => some ⟨.op .notRegex, 1⟩
  | '(', _ => some ⟨.openParen, 0⟩
  | ')', _ => some ⟨.closeParen, 0⟩
  | ',', _ => some ⟨.comma, 0⟩
  | ':', _ => some ⟨.colon, 0⟩
  | '!', _ => some ⟨.not, 0⟩
  | '=', _ => some ⟨.assign, 0⟩
  | '<', _ => some ⟨.op .lt, 0⟩
  | '>', _ => some ⟨.op .gt, 0⟩
  | _, _ => none

/-- Reads quoted text up to the closing `quote`, and counts the characters read.
    A backslash protects the quote mark and itself; in front of any other
    character it stands for itself. -/
def readQuoted (quote : Char) : List Char → Option (List Char × Nat)
  | [] => none
  | c :: rest =>
    if c = backslash then
      match rest with
      | [] => none
      | next :: rest =>
        (readQuoted quote rest).map fun (value, n) =>
          if next = quote || next = backslash then (next :: value, n + 2)
          else (backslash :: next :: value, n + 2)
    else if c = quote then some ([], 1)
    else (readQuoted quote rest).map fun (value, n) => (c :: value, n + 1)

/-- The characters of a number after its first one. -/
def isNumberPart (c : Char) : Bool := c.isDigit || c == '.' || c == 'e' || c == 'E'

/-- Whether a number starts here: with a digit, or with a sign before a digit. -/
def startsNumber (first : Char) (rest : List Char) : Bool :=
  first.isDigit || (first == '-' && (rest.head?.any Char.isDigit))

/-- The characters that a word can start with. -/
def isWordStart (c : Char) : Bool := Unicode.isAlphabetic c || c == '_'

/-- The characters of a word after its first one. -/
def isWordPart (c : Char) : Bool := Unicode.isAlphanumeric c || c == '_' || c == '.'

/-- A word is a keyword in any mixture of ASCII cases, else a name. -/
def classifyWord (word : String) : TokenKind :=
  match word.toLower with
  | "and" => .and
  | "or" => .or
  | "not" => .not
  | "null" => .nullKeyword
  | "true" => .trueKeyword
  | _ => .word word

/-- The lexeme that starts with `first` at `position`. -/
def read (position : Nat) (first : Char) (rest : List Char) : Except ParseError Lexeme :=
  match symbol? first rest with
  | some lexeme => .ok lexeme
  | none =>
    if first = quoteMark || first = '"' then
      match readQuoted first rest with
      | some (value, n) => .ok ⟨.quoted (String.ofList value), n⟩
      | none => .error (.unterminatedString position)
    else if startsNumber first rest then
      let tail := rest.takeWhile isNumberPart
      .ok ⟨.number (String.ofList (first :: tail)), tail.length⟩
    else if isWordStart first then
      let tail := rest.takeWhile isWordPart
      .ok ⟨classifyWord (String.ofList (first :: tail)), tail.length⟩
    else .error (.unexpectedToken position (String.singleton first) .queryToken)

end Lexeme

namespace Token

/-- The tokens of the characters from `position` on, of which the first `taken`
    belong to the token before. -/
def scan (position taken : Nat) : List Char → Except ParseError (List Token)
  | [] => .ok []
  | c :: rest =>
    if 0 < taken then scan (position + 1) (taken - 1) rest
    else if Unicode.isBlank c then scan (position + 1) 0 rest
    else do
      let lexeme ← Lexeme.read position c rest
      let tokens ← scan (position + 1) lexeme.extra rest
      return ⟨lexeme.kind, position⟩ :: tokens

/-- The tokens of a text. -/
def ofText (text : String) : Except ParseError (List Token) := scan 0 0 text.toList

end Token

end IndexQuery
