import IndexQuery.Query.Basic

/-! # Bounded ranges

    A `bounded` marker over a lower and an upper bound on one field is a single
    range. `bounds?_range` says that a built range is read back.
-/

namespace IndexQuery

/-- A lower and an upper bound, in this order. -/
structure Bounds where
  lower : Comparison
  upper : Comparison
deriving DecidableEq, Repr, Inhabited

/-- Two comparisons of one field with text, of which one is a lower and the
    other an upper bound. -/
def Bounds.ofComparisons? (a b : Comparison) : Option Bounds :=
  if a.field ≠ b.field || a.literal.isNull || b.literal.isNull then none
  else if a.op.isLowerBound && b.op.isUpperBound then some ⟨a, b⟩
  else if b.op.isLowerBound && a.op.isUpperBound then some ⟨b, a⟩
  else none

/-- The field of the range. -/
def Bounds.field (b : Bounds) : String := b.lower.field

namespace Query

/-- The range between two bounds. -/
def range (b : Bounds) : Query :=
  mark .bounded (.junction .and [.compare b.lower, .compare b.upper])

/-- The bounds of a range, whatever their order and the groups around them. -/
def bounds? : Query → Option Bounds
  | .marked .bounded _ child =>
    match child.ungrouped with
    | .junction .and [a, b] =>
      match a.ungrouped.comparison?, b.ungrouped.comparison? with
      | some a, some b => Bounds.ofComparisons? a b
      | _, _ => none
    | _ => none
  | _ => none

theorem bounds?_range (b : Bounds) :
    (range b).bounds? = Bounds.ofComparisons? b.lower b.upper := rfl

end Query

end IndexQuery
