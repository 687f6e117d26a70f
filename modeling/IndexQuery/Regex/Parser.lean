import IndexQuery.Regex.Token

/-! # Reading patterns

    A pattern is read token by token. The groups that are open at a place are a
    stack of levels, each with the flags in force and with what was read of it.
-/

namespace IndexQuery.Regex

/-- A group that is open, or the whole pattern. -/
structure Level where
  flags : Flags
  /-- The number of the group, if it has one. -/
  number : Option Nat := none
  /-- The alternatives before the current one, the last one first. -/
  alternatives : List (Nested Regex) := []
  /-- The pieces of the current alternative, the last one first. A change of flags
      is a piece too, without an expression, and cannot be repeated. -/
  pieces : List (Nested (Option Regex)) := []
deriving Inhabited

namespace Level

/-- The current alternative. -/
def current (level : Level) : Nested Regex :=
  ⟨ofSeq (level.pieces.reverse.filterMap (·.value)), depthOfAll (level.pieces.map (·.depth))⟩

/-- What was read of the level. -/
def regex (level : Level) : Nested Regex :=
  let alternatives := (level.current :: level.alternatives).reverse
  ⟨ofAlt (alternatives.map (·.value)), depthOfAll (alternatives.map (·.depth))⟩

/-- The group that the level was. -/
def close (level : Level) : Nested Regex :=
  ⟨.group level.number level.regex.value, level.regex.depth + 1⟩

/-- The level with one more piece. -/
def add (level : Level) (piece : Nested Regex) : Level :=
  { level with pieces := ⟨some piece.value, piece.depth⟩ :: level.pieces }

end Level

/-- The levels that are open, the innermost first, with the number of groups so far
    and their names. -/
structure Levels where
  inner : Level
  outer : List Level := []
  numbered : Nat := 0
  names : List String := []
deriving Inhabited

namespace Levels

/-- The levels after a token. -/
def read? (levels : Levels) : Token → Option Levels
  | .piece r => some { levels with inner := levels.inner.add r }
  | .repetition least most short =>
    match levels.inner.pieces with
    | ⟨some r, depth⟩ :: rest =>
      some { levels with
        inner.pieces := ⟨some (.repeated r least most short), depth + 1⟩ :: rest }
    | _ => none
  | .bar =>
    let inner := levels.inner
    some { levels with
      inner := { inner with
        alternatives := inner.current :: inner.alternatives
        pieces := [] } }
  | .openGroup numbered change name =>
    if name.any levels.names.contains then none
    else
      let number := levels.numbered + 1
      some
        { inner :=
            { flags := change.apply levels.inner.flags
              number := if numbered then some number else none }
          outer := levels.inner :: levels.outer
          numbered := if numbered then number else levels.numbered
          names := name.toList ++ levels.names }
  | .closeGroup =>
    match levels.outer with
    | [] => none
    | parent :: outer => some { levels with inner := parent.add levels.inner.close, outer }
  | .setFlags change =>
    some { levels with
      inner.flags := change.apply levels.inner.flags
      inner.pieces := ⟨none, 0⟩ :: levels.inner.pieces }

end Levels

/-- Reads the rest of a pattern, which has fewer than `bound` characters. -/
def parseFrom (table : PropertyTable) (bound : Nat) (levels : Levels) (cs : List Char) :
    Option (Nested Regex) :=
  match bound with
  | 0 => none
  | bound + 1 =>
    match skip levels.inner.flags.verbose cs with
    | [] => if levels.outer.isEmpty then some levels.inner.regex else none
    | c :: rest => do
      let (token, rest) ← readToken table levels.inner.flags bound c rest
      parseFrom table bound (← levels.read? token) rest

/-- How deep a pattern may be nested. -/
def depthLimit : Nat := 250

/-- The expression that a pattern writes. -/
def parse? (table : PropertyTable) (pattern : List Char) : Option Regex :=
  ((parseFrom table (pattern.length + 1) { inner := { flags := Flags.initial } } pattern).filter
    (·.depth ≤ depthLimit)).map (·.value)

end IndexQuery.Regex
