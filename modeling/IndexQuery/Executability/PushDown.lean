import IndexQuery.Executability.Classifier

/-! # Delaying branches

    A child of a conjunction that can be answered in some branches only need not
    be answered from the index when a sibling is: the sibling finds the records,
    and the child is checked on them. Such a child is delayed.
-/

namespace IndexQuery

namespace Classifier

/-- Marks a child as delayed if only some of its branches can be answered. -/
def delayPartial (c : Classifier) (child : Query) : Query :=
  if (c.classify child).state = .partially then .mark .delayed child.ungrouped else child

/-- A conjunction whose children to be delayed are delayed, if one of the others
    finds the records. -/
def anchor (c : Classifier) (children : List Query) : Query :=
  .conj (if children.any c.answers then children.map c.delayPartial else children)

mutual

/-- Delays what can be delayed. Negations and what is marked for evaluation stay
    as they are. -/
def pushDown (c : Classifier) : Query → Query
  | .junction .and cs => c.anchor (c.pushDownAll cs)
  | .junction .or cs => .disj (c.pushDownAll cs)
  | .group child => .group (c.pushDown child)
  | .marked m note child =>
    match m with
    | .lenient | .strict | .list | .term => .marked m note (c.pushDown child)
    | m => .marked m note child
  | .not child => .not child
  | .compare leaf => .compare leaf
  | .call call => .call call

/-- Delays what can be delayed in several queries. -/
def pushDownAll (c : Classifier) : List Query → List Query
  | [] => []
  | child :: rest => c.pushDown child :: c.pushDownAll rest

end

end Classifier

end IndexQuery
