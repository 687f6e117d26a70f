import IndexQuery.Regex.NamedClass

/-! # Conditions on places

    A pattern can ask what stands around a place of a text without reading on.
-/

namespace IndexQuery

/-- How a place lies to the words around it. -/
inductive WordEdge where
  | boundary
  | noBoundary
  | start
  | finish
  /-- Not behind a character of a word. -/
  | startHalf
  /-- Not before a character of a word. -/
  | finishHalf
deriving DecidableEq, Repr, Inhabited

/-- A condition on a place between two characters. -/
inductive Assertion where
  | textStart
  | textEnd
  /-- At the start or after a line feed. -/
  | lineStart
  /-- At the end or before a line feed. -/
  | lineEnd
  /-- As `lineStart`, but a carriage return ends a line too, with or without a
      line feed behind it. -/
  | returnLineStart
  /-- As `lineEnd`, for such lines. -/
  | returnLineEnd
  /-- An edge of a word. Only ASCII characters make words if `ascii` is set. -/
  | word (edge : WordEdge) (ascii : Bool)
deriving DecidableEq, Repr, Inhabited

/-- Whether a place is such an edge, given whether words are on its two sides. -/
def WordEdge.holdsBetween (edge : WordEdge) (before after : Bool) : Bool :=
  match edge with
  | .boundary => before != after
  | .noBoundary => before == after
  | .start => !before && after
  | .finish => before && !after
  | .startHalf => !before
  | .finishHalf => !after

/-- Whether the condition holds between two characters, of which either may be
    missing. -/
def Assertion.holdsBetween (a : Assertion) (before after : Option Char) : Bool :=
  match a with
  | .textStart => before.isNone
  | .textEnd => after.isNone
  | .lineStart => before.isNone || before == some '\n'
  | .lineEnd => after.isNone || after == some '\n'
  | .returnLineStart =>
    before.isNone || before == some '\n' || (before == some '\r' && after != some '\n')
  | .returnLineEnd =>
    after.isNone || after == some '\r' || (after == some '\n' && before != some '\r')
  | .word edge ascii =>
    let word := if ascii then CharSet.asciiWord else NamedClass.word.set
    edge.holdsBetween (before.any word.contains) (after.any word.contains)

end IndexQuery
