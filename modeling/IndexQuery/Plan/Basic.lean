import IndexQuery.Lookup.Basic
import IndexQuery.Query.Basic

/-! # Plans

    A plan is a tree of look-ups. What stands at its leaves is a parameter: the
    look-ups themselves, or their running form.
-/

namespace IndexQuery

/-- A tree over leaves of some type. -/
inductive Plan (α : Type) where
  /-- All children match. -/
  | intersection (children : List (Plan α))
  /-- Some child matches. -/
  | union (children : List (Plan α))
  | leaf (a : α)
  /-- The inner plan does not match. -/
  | negation (inner : Plan α)
  /-- An excluded clause, which never matches. -/
  | dropped (reason : String)
deriving Inhabited

namespace Plan

variable {α β : Type}

/-! ## Induction -/

/-- What holds of a plan when it holds of its children holds of every plan. -/
@[elab_as_elim]
theorem induction {motive : Plan α → Prop}
    (intersection : ∀ cs, (∀ c ∈ cs, motive c) → motive (.intersection cs))
    (union : ∀ cs, (∀ c ∈ cs, motive c) → motive (.union cs)) (leaf : ∀ a, motive (.leaf a))
    (negation : ∀ p, motive p → motive (.negation p))
    (dropped : ∀ reason, motive (.dropped reason)) : ∀ p, motive p
  | .intersection cs =>
    intersection cs fun c _ => induction intersection union leaf negation dropped c
  | .union cs => union cs fun c _ => induction intersection union leaf negation dropped c
  | .leaf a => leaf a
  | .negation p => negation p (induction intersection union leaf negation dropped p)
  | .dropped reason => dropped reason

/-! ## Equality -/

mutual

/-- Whether two plans are the same. -/
def same [DecidableEq α] : Plan α → Plan α → Bool
  | .intersection cs, .intersection cs' | .union cs, .union cs' => sameAll cs cs'
  | .leaf a, .leaf a' => a = a'
  | .negation p, .negation p' => p.same p'
  | .dropped reason, .dropped reason' => reason = reason'
  | _, _ => false

/-- Whether two lists hold the same plans. -/
def sameAll [DecidableEq α] : List (Plan α) → List (Plan α) → Bool
  | [], [] => true
  | c :: cs, c' :: cs' => c.same c' && sameAll cs cs'
  | _, _ => false

end

mutual

theorem same_iff [DecidableEq α] : ∀ p q : Plan α, p.same q = true ↔ p = q
  | .intersection cs, q => by cases q <;> simp [same, sameAll_iff cs]
  | .union cs, q => by cases q <;> simp [same, sameAll_iff cs]
  | .leaf a, q => by cases q <;> simp [same]
  | .negation p, q => by cases q <;> simp [same, same_iff p]
  | .dropped reason, q => by cases q <;> simp [same]

theorem sameAll_iff [DecidableEq α] : ∀ ps qs : List (Plan α), sameAll ps qs = true ↔ ps = qs
  | [], qs => by cases qs <;> simp [sameAll]
  | p :: ps, qs => by cases qs <;> simp [sameAll, same_iff p, sameAll_iff ps]

end

instance [DecidableEq α] : DecidableEq (Plan α) := fun p q => decidable_of_iff _ (same_iff p q)

/-! ## Building -/

/-- The plan that matches where another one does not. Two negations cancel. -/
def negate : Plan α → Plan α
  | .negation p => p
  | p => .negation p

/-- Whether the plan is a negation. -/
def isNegation : Plan α → Bool
  | .negation _ => true
  | _ => false

/-- The plan for the children of a junction. A single one stands for itself, and
    there is no plan for none. -/
def ofJunction? (kind : Junction) : List (Plan α) → Option (Plan α)
  | [] => none
  | [p] => some p
  | ps =>
    match kind with
    | .and => some (.intersection ps)
    | .or => some (.union ps)

/-! ## Looking inside -/

mutual

/-- The plan with other leaves. -/
def map (f : α → β) : Plan α → Plan β
  | .intersection cs => .intersection (mapAll f cs)
  | .union cs => .union (mapAll f cs)
  | .leaf a => .leaf (f a)
  | .negation p => .negation (p.map f)
  | .dropped reason => .dropped reason

/-- Several plans with other leaves. -/
def mapAll (f : α → β) : List (Plan α) → List (Plan β)
  | [] => []
  | c :: cs => c.map f :: mapAll f cs

end

mutual

/-- The leaves, in the order of evaluation. -/
def leaves : Plan α → List α
  | .intersection cs | .union cs => leavesAll cs
  | .leaf a => [a]
  | .negation p => p.leaves
  | .dropped _ => []

/-- The leaves of several plans. -/
def leavesAll : List (Plan α) → List α
  | [] => []
  | c :: cs => c.leaves ++ leavesAll cs

end

mutual

/-- How a plan is shown. -/
def describe : Plan Lookup → String
  | .intersection cs => "Intersect(" ++ describeAll cs ++ ")"
  | .union cs => "Union(" ++ describeAll cs ++ ")"
  | .leaf l => "Leaf(" ++ l.describe ++ ")"
  | .negation p => "Negated(" ++ p.describe ++ ")"
  | .dropped reason => "Dropped('" ++ reason ++ "')"

/-- How several plans are shown. -/
def describeAll : List (Plan Lookup) → String
  | [] => ""
  | [p] => p.describe
  | p :: ps => p.describe ++ ", " ++ describeAll ps

end

end Plan

end IndexQuery
