import IndexQuery.Query.Basic

/-! # Lineage of the nodes of a tree

    The nodes of a tree are numbered in pre-order, the root being 0. A lineage
    records the parent, the children and the depth of every node, and can be
    checked without the tree.
-/

namespace IndexQuery

/-- What is recorded of one node. -/
structure LineageSlot where
  parent : Option Nat
  children : List Nat
  depth : Nat
deriving DecidableEq, Repr, Inhabited

/-- The recorded nodes, in pre-order. -/
structure Lineage where
  slots : List LineageSlot
deriving DecidableEq, Repr, Inhabited

/-- A contradiction between parents and children. -/
inductive LineageViolation where
  /-- A node that is not the root has no parent. -/
  | orphan (node : Nat)
  /-- The root has a parent. -/
  | rootWithParent
  /-- The parent of a node does not list it exactly once. -/
  | listed (node parent times : Nat)
  /-- A node is listed as a child more than once. -/
  | claimedTwice (node : Nat)
  /-- A listed child names another parent. -/
  | strayChild (node parent : Nat)
deriving DecidableEq, Repr, Inhabited

/-- The wording of a violation. -/
def LineageViolation.message : LineageViolation → String
  | .orphan _ => "non-root node has no parent"
  | .rootWithParent => "root node has a parent"
  | .listed _ parent times =>
    "parent #" ++ toString parent ++ " lists node " ++ toString times ++ " times"
  | .claimedTwice _ => "node is claimed by more than one parent"
  | .strayChild _ parent => "child does not point back to #" ++ toString parent

namespace Lineage

/-! ## Recording a tree -/

mutual

/-- The slots of a subtree whose root has the number `id`. -/
def slotsOf (parent : Option Nat) (depth id : Nat) : Query → List LineageSlot
  | .junction _ cs =>
    let (ids, below) := slotsOfAll id (depth + 1) (id + 1) cs
    ⟨parent, ids, depth⟩ :: below
  | .not c | .group c | .marked _ _ c =>
    ⟨parent, [id + 1], depth⟩ :: slotsOf (some id) (depth + 1) (id + 1) c
  | .compare _ | .call _ => [⟨parent, [], depth⟩]

/-- The numbers and the slots of sibling subtrees, the first of which has the
    number `id`. -/
def slotsOfAll (parent depth id : Nat) : List Query → List Nat × List LineageSlot
  | [] => ([], [])
  | c :: cs =>
    let first := slotsOf (some parent) depth id c
    let (ids, rest) := slotsOfAll parent depth (id + first.length) cs
    (id :: ids, first ++ rest)

end

/-- The lineage of a tree. -/
def build (root : Query) : Lineage := ⟨slotsOf none 0 0 root⟩

/-! ## Look-ups -/

/-- The number of nodes. -/
def size (l : Lineage) : Nat := l.slots.length

/-- Whether nothing is recorded. -/
def isEmpty (l : Lineage) : Bool := l.slots.isEmpty

/-- The number of the root. -/
def root (_ : Lineage) : Nat := 0

/-- The parent of a node; none for the root and beyond the end. -/
def parent? (l : Lineage) (id : Nat) : Option Nat := l.slots[id]?.bind (·.parent)

/-- The children of a node; none beyond the end. -/
def children (l : Lineage) (id : Nat) : List Nat := (l.slots[id]?.map (·.children)).getD []

/-- The depth of a node, 0 for the root and beyond the end. -/
def depth (l : Lineage) (id : Nat) : Nat := (l.slots[id]?.map (·.depth)).getD 0

/-! ## Checking -/

/-- What is wrong with the parent of a node. -/
def parentViolation? (l : Lineage) (id : Nat) (parent : Option Nat) : Option LineageViolation :=
  match parent with
  | none => if id = 0 then none else some (.orphan id)
  | some p =>
    if id = 0 then some .rootWithParent
    else
      let times := (l.children p).count id
      if times = 1 then none else some (.listed id p times)

/-- What is wrong with the children of a node, given the children seen before. -/
def childViolation? (l : Lineage) (id : Nat) (seen : List Nat) : List Nat → Option LineageViolation
  | [] => none
  | child :: rest =>
    if child ∈ seen then some (.claimedTwice child)
    else if l.parent? child ≠ some id then some (.strayChild child id)
    else childViolation? l id (child :: seen) rest

/-- The first violation among the given slots, the first of which has the number `id`. -/
def violationFrom? (l : Lineage) (id : Nat) (seen : List Nat) :
    List LineageSlot → Option LineageViolation
  | [] => none
  | slot :: rest =>
    (parentViolation? l id slot.parent).or <|
      (childViolation? l id seen slot.children).or <|
        violationFrom? l (id + 1) (slot.children ++ seen) rest

/-- The first violation: every node but the root has a parent that lists it
    exactly once, and no node is the child of two. -/
def violation? (l : Lineage) : Option LineageViolation := violationFrom? l 0 [] l.slots

end Lineage

end IndexQuery
