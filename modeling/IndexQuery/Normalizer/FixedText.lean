import IndexQuery.Query.Printer
import IndexQuery.Unicode.Digit

/-! # Patterns that match a single text

    A pattern without metacharacters matches exactly one text. `fixedText?` finds
    it, and `escapePattern` writes a pattern for a given text.
-/

namespace IndexQuery

/-- The characters that have a meaning of their own in a pattern. -/
def isMetacharacter (c : Char) : Bool :=
  ['.', '^', '$', '*', '+', '?', '(', ')', '[', ']', '\x7b', '\x7d', '|'].contains c

/-- The text of a pattern without metacharacters. A protected character stands
    for itself unless it is alphanumeric, for then it names a class. -/
def fixedText? : List Char → Option (List Char)
  | [] => some []
  | c :: rest =>
    if c = backslash then
      match rest with
      | [] => none
      | next :: rest =>
        if Unicode.isAlphanumeric next then none else (fixedText? rest).map (next :: ·)
    else if isMetacharacter c then none
    else (fixedText? rest).map (c :: ·)

/-- The characters that are protected when a text becomes a pattern. -/
def needsEscape (c : Char) : Bool :=
  isMetacharacter c || [backslash, '#', '&', '-', '~'].contains c

/-- A pattern for the given text. -/
def escapePattern (text : List Char) : List Char :=
  text.flatMap fun c => if needsEscape c then [backslash, c] else [c]

end IndexQuery
