import IndexQuery.Catalog
import IndexQuery.Query.Printer

/-! # Clauses and their variants

    A clause is what normalizers apply to: a comparison with text, or the two
    bounds of a range. Its variants are the forms that the normalizers of its field
    give it.
-/

namespace IndexQuery

/-- A comparison with text, or the bounds of a range. -/
inductive Clause where
  | leaf (c : Comparison)
  | range (b : Bounds)
deriving DecidableEq, Repr, Inhabited

namespace Clause

/-- The clause that a query is. -/
def of? : Query → Option Clause
  | .compare c => if c.literal.isNull then none else some (.leaf c)
  | q => q.bounds?.map .range

/-- The field of the clause. -/
def field : Clause → String
  | .leaf c => c.field
  | .range b => b.field

/-- What clauses have in common that differ in their values alone. -/
def key : Clause → String × List CompareOp
  | .leaf c => (c.field, [c.op])
  | .range b => (b.field, [b.lower.op, b.upper.op])

/-- The values of the clause: one, or the lower and the upper one. -/
def values : Clause → List String
  | .leaf c => [c.literal.text]
  | .range b => [b.lower.literal.text, b.upper.literal.text]

/-- What a clause says: what it has in common with others, and its values. -/
abbrev Content := (String × List CompareOp) × List String

/-- What the clause says. -/
def content (c : Clause) : Content := (c.key, c.values)

/-- The clause with other values. -/
def withValues (values : List String) : Clause → Clause
  | .leaf c =>
    match values with
    | [v] => .leaf (c.withValue v)
    | _ => .leaf c
  | .range b =>
    match values with
    | [lo, hi] => .range ⟨b.lower.withValue lo, b.upper.withValue hi⟩
    | _ => .range b

/-- The clause as a query. -/
def toQuery : Clause → Query
  | .leaf c => .compare c
  | .range b => .range b

/-- The junction between the variants of the clause. -/
def junction : Clause → Junction
  | .leaf c => if c.op.isNegative then .and else .or
  | .range _ => .or

/-! ## Variants -/

/-- Adds an item to a list that does not hold it yet. -/
def addNew (items : List (List String)) (item : List String) : List (List String) :=
  if items.contains item then items else items ++ [item]

/-- The values that a normalizer gives a clause, with a note on its arithmetic. -/
def normalization (n : Normalizer) : Clause → Noted (Option (List String))
  | .leaf c => do
    let result ←
      if c.op.isRegex then n.ofPattern c.literal.text else n.ofValue c.literal.text
    return result.toOption.map fun v => [v]
  | .range b => do
    -- the upper bound is normalized even where the lower one is refused
    let lower ← n.ofValue b.lower.literal.text
    let upper ← n.ofValue b.upper.literal.text
    return do return [← lower.toOption, ← upper.toOption]

/-- The values that a normalizer gives a clause. -/
def normalized? (n : Normalizer) (clause : Clause) : Option (List String) :=
  (clause.normalization n).value

/-- The forms of a clause from what each normalizer gives it, `none` when no normalizer
    accepts it. For a range a normalizer that refuses it gives the form as written. The
    form as written is kept beside others, and always beside those of a pattern. -/
def formsOf (clause : Clause) (results : List (Option (List String))) :
    Option (List (List String)) :=
  if results.all Option.isNone then none
  else
    let forms :=
      match clause with
      | .leaf _ => (results.filterMap id).foldl addNew []
      | .range _ => (results.map fun r => r.getD clause.values).foldl addNew []
    let isPattern :=
      match clause with
      | .leaf c => c.op.isRegex
      | .range _ => false
    some (if isPattern || 1 < forms.length then addNew forms clause.values else forms)

/-- The forms of a clause, with a note on the arithmetic. Every normalizer is asked. -/
def variants (normalizers : List Normalizer) (clause : Clause) :
    Noted (Option (List (List String))) :=
  clause.formsOf <$> Noted.each clause.normalization normalizers

/-- The forms of a clause, `none` when no normalizer accepts it. -/
def variants? (normalizers : List Normalizer) (clause : Clause) : Option (List (List String)) :=
  (clause.variants normalizers).value

end Clause

end IndexQuery
