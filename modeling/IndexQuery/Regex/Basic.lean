import IndexQuery.Regex.Assertion

/-! # Regular expressions

    A regular expression describes the stretches of a text between two places.
-/

namespace IndexQuery

/-- A regular expression. -/
inductive Regex where
  /-- Nothing at all. -/
  | empty
  /-- One character of a set. -/
  | chars (set : CharSet)
  | look (a : Assertion)
  /-- One after the other. -/
  | seq (a b : Regex)
  /-- Either of two. -/
  | alt (a b : Regex)
  /-- At least `least` times, and at most `most` times if that is given. Whether a
      short stretch is preferred does not matter to what fits. -/
  | repeated (r : Regex) (least : Nat) (most : Option Nat) (short : Bool)
  /-- A group; those with a number can be referred to. -/
  | group (number : Option Nat) (r : Regex)
deriving DecidableEq, Repr, Inhabited

namespace Regex

/-- Several expressions, one after the other. -/
def ofSeq : List Regex → Regex
  | [] => .empty
  | [r] => r
  | r :: rest => .seq r (ofSeq rest)

/-- Any of several expressions. -/
def ofAlt : List Regex → Regex
  | [] => .empty
  | [r] => r
  | r :: rest => .alt r (ofAlt rest)

end Regex

end IndexQuery
