import IndexQuery.Distinct
import IndexQuery.Query.Comparison
import IndexQuery.Query.Marker

/-! # Query trees

    A query is a tree of conjunctions, disjunctions, negations, groups and
    markers over comparisons and function calls.

    * `join` builds a junction that has no direct child of its own kind and is
      never wrapped around a single child.
    * `fields` lists the fields of a query in the order of first mention.
-/

namespace IndexQuery

/-- An argument of a function call. -/
inductive Argument where
  | field (name : String)
  /-- A name that is not a field. -/
  | identifier (name : String)
  | literal (value : Literal)
deriving DecidableEq, Hashable, Repr, Inhabited

/-- A call of a function from a family of functions. -/
structure Call where
  family : String
  name : String
  args : List Argument
deriving DecidableEq, Hashable, Repr, Inhabited

/-- The fields among the arguments of a call. -/
def Call.fields (c : Call) : List String :=
  c.args.filterMap fun
    | .field name => some name
    | _ => none

/-- Why a clause was dropped, and its text at that time. -/
structure DropNote where
  reason : String
  query : String
deriving DecidableEq, Hashable, Repr, Inhabited

/-- The two ways to join queries. -/
inductive Junction where
  | and
  | or
deriving DecidableEq, Hashable, Repr, Inhabited

/-- A query tree. -/
inductive Query where
  | junction (kind : Junction) (children : List Query)
  | not (child : Query)
  | compare (comparison : Comparison)
  | call (call : Call)
  /-- Parentheses without a meaning of their own. -/
  | group (child : Query)
  | marked (marker : Marker) (note : Option DropNote) (child : Query)
deriving Inhabited

namespace Query

/-! ## Equality -/

mutual

/-- Whether two trees are the same. -/
def same : Query → Query → Bool
  | .junction k cs, .junction k' cs' => k == k' && sameAll cs cs'
  | .not c, .not c' => c.same c'
  | .compare c, .compare c' => c == c'
  | .call c, .call c' => c == c'
  | .group c, .group c' => c.same c'
  | .marked m n c, .marked m' n' c' => m == m' && n == n' && c.same c'
  | _, _ => false

/-- Whether two lists hold the same trees. -/
def sameAll : List Query → List Query → Bool
  | [], [] => true
  | c :: cs, c' :: cs' => c.same c' && sameAll cs cs'
  | _, _ => false

end

mutual

theorem same_iff : ∀ a b : Query, a.same b = true ↔ a = b
  | .junction k cs, b => by
    cases b <;> simp [same, sameAll_iff cs]
  | .not c, b => by cases b <;> simp [same, same_iff c]
  | .compare c, b => by cases b <;> simp [same]
  | .call c, b => by cases b <;> simp [same]
  | .group c, b => by cases b <;> simp [same, same_iff c]
  | .marked m n c, b => by cases b <;> simp [same, same_iff c, and_assoc]

theorem sameAll_iff : ∀ as bs : List Query, sameAll as bs = true ↔ as = bs
  | [], bs => by cases bs <;> simp [sameAll]
  | a :: as, bs => by cases bs <;> simp [sameAll, same_iff a, sameAll_iff as]

end

instance : DecidableEq Query := fun a b => decidable_of_iff _ (same_iff a b)

mutual

/-- A number to look up trees by. -/
def digest : Query → UInt64
  | .junction k cs => mixHash 3 (mixHash (hash k) (digestAll cs))
  | .not c => mixHash 5 c.digest
  | .compare c => mixHash 7 (hash c)
  | .call c => mixHash 11 (hash c)
  | .group c => mixHash 13 c.digest
  | .marked m n c => mixHash (mixHash 17 (hash m)) (mixHash (hash n) c.digest)

/-- A number to look up lists of trees by. -/
def digestAll : List Query → UInt64
  | [] => 19
  | c :: cs => mixHash c.digest (digestAll cs)

end

instance : Hashable Query := ⟨digest⟩

/-! ## Building -/

/-- The operands that a query contributes to a junction of the given kind:
    its children when it is such a junction, else the query alone. -/
def operands (kind : Junction) : Query → List Query
  | .junction k cs => if k = kind then cs else [.junction k cs]
  | q => [q]

/-- Joins queries. Children of the same kind are merged one level deep, and a
    single operand stands for itself. -/
def join (kind : Junction) (children : List Query) : Query :=
  match children.flatMap (operands kind) with
  | [q] => q
  | flat => .junction kind flat

/-- The conjunction of queries, see `join`. -/
def conj (children : List Query) : Query := join .and children

/-- The disjunction of queries, see `join`. -/
def disj (children : List Query) : Query := join .or children

/-- A comparison as a query. -/
def compareWith (op : CompareOp) (field : String) (literal : Literal) : Query :=
  .compare ⟨op, field, literal⟩

/-- Marks a query, without a note. -/
def mark (marker : Marker) (child : Query) : Query := .marked marker none child

/-! ## Looking inside -/

/-- The query without the groups around it. -/
def ungrouped : Query → Query
  | .group child => child.ungrouped
  | q => q

/-- The comparison that the query is. -/
def comparison? : Query → Option Comparison
  | .compare c => some c
  | _ => none

/-- The direct children. -/
def children : Query → List Query
  | .junction _ cs => cs
  | .not c | .group c | .marked _ _ c => [c]
  | .compare _ | .call _ => []

/-- Whether the query has no room for children. -/
def isLeaf : Query → Bool
  | .compare _ | .call _ => true
  | _ => false

mutual

/-- The number of nodes of the tree. -/
def nodeCount : Query → Nat
  | .junction _ cs => 1 + nodeCountAll cs
  | .not c | .group c | .marked _ _ c => 1 + c.nodeCount
  | .compare _ | .call _ => 1

/-- The number of nodes of several trees. -/
def nodeCountAll : List Query → Nat
  | [] => 0
  | c :: cs => c.nodeCount + nodeCountAll cs

end

mutual

/-- Every mention of a field, in the order of the text. -/
def mentions : Query → List String
  | .junction _ cs => mentionsAll cs
  | .not c | .group c | .marked _ _ c => c.mentions
  | .compare c => [c.field]
  | .call c => c.fields

/-- Every mention of a field in several trees. -/
def mentionsAll : List Query → List String
  | [] => []
  | c :: cs => c.mentions ++ mentionsAll cs

end

/-- The fields of the query, in the order of first mention. -/
def fields (q : Query) : List String := distinct q.mentions

end Query

end IndexQuery
