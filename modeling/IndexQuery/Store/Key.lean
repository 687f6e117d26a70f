/-! # Keys

    A key orders by row, family, qualifier and visibility, and then by timestamp,
    newest first.
-/

namespace IndexQuery

/-- The key of an entry of the index. -/
structure Key where
  row : String
  family : String
  qualifier : String
  visibility : String := ""
  /-- In milliseconds. -/
  timestamp : Int64
deriving DecidableEq, Repr, Inhabited

namespace Key

/-- The order of two timestamps, newer ones first. -/
def newerFirst (a b : Key) : Ordering := compare b.timestamp a.timestamp

/-- The order of keys. -/
def order : Key → Key → Ordering :=
  compareLex (compareOn row) <| compareLex (compareOn family) <|
    compareLex (compareOn qualifier) <| compareLex (compareOn visibility) newerFirst

instance : Ord Key := ⟨order⟩

instance : Std.TransCmp newerFirst where
  eq_swap := Std.OrientedOrd.eq_swap (α := Int64)
  isLE_trans h h' := Std.TransOrd.isLE_trans h' h

instance : Std.TransOrd Key := inferInstanceAs <| Std.TransCmp <|
  compareLex (compareOn row) <| compareLex (compareOn family) <|
    compareLex (compareOn qualifier) <| compareLex (compareOn visibility) newerFirst

instance : Std.LawfulEqOrd Key where
  eq_of_compare {a b} h := by
    change order a b = .eq at h
    simp only [order, compareLex, compareOn, newerFirst, Ordering.then_eq_eq,
      Std.LawfulEqOrd.compare_eq_iff_eq] at h
    obtain ⟨hr, hf, hq, hv, ht⟩ := h
    cases a
    cases b
    simp_all

/-- Whether a key lies behind another one, or is that one if it is included. -/
def isFrom (key start : Key) (included : Bool) : Bool :=
  match compare key start with
  | .gt => true
  | .eq => included
  | .lt => false

/-- The key in front of every version of a cell. -/
def firstOf (row family qualifier : String) : Key :=
  { row, family, qualifier, timestamp := Int64.maxValue }

end Key

/-- A range of keys. -/
structure KeyRange where
  start : Key
  startInclusive : Bool
  finish : Key
  finishInclusive : Bool
deriving DecidableEq, Repr, Inhabited

namespace KeyRange

/-- Every version of the qualifiers from `lower` on and before `upper`. -/
def qualifiers (row family lower upper : String) : KeyRange :=
  ⟨.firstOf row family lower, true, .firstOf row family upper, false⟩

/-- Whether a key lies behind the start. -/
def isAfterStart (r : KeyRange) (key : Key) : Bool :=
  match compare key r.start with
  | .gt => true
  | .eq => r.startInclusive
  | .lt => false

/-- Whether a key lies before the end. -/
def isBeforeEnd (r : KeyRange) (key : Key) : Bool :=
  match compare key r.finish with
  | .lt => true
  | .eq => r.finishInclusive
  | .gt => false

/-- Whether a key lies in the range. -/
def contains (r : KeyRange) (key : Key) : Bool := r.isAfterStart key && r.isBeforeEnd key

end KeyRange

end IndexQuery
