import IndexQuery.Plan.Evaluate

/-! # What an evaluated plan answers

    Evaluating a running plan moves cursors, fills memos and collects values. Its
    answer depends on none of them: it is the truth of the plan as a formula over
    the answers of its leaves.

    * `Plan.holds`: a plan as a formula over its leaves.
    * `RunningPlan.matched_evaluateInto`: evaluation answers with that formula.
-/

namespace IndexQuery

namespace Plan

variable {α β : Type}

/-! ## Plans as formulas -/

mutual

/-- Whether a plan matches when its leaves have the given answers. -/
def holds (answer : α → Bool) : Plan α → Bool
  | .intersection cs => holdsEvery answer cs
  | .union cs => holdsSome answer cs
  | .leaf a => answer a
  | .negation p => !p.holds answer
  | .dropped _ => false

/-- Whether all of several plans match. -/
def holdsEvery (answer : α → Bool) : List (Plan α) → Bool
  | [] => true
  | c :: cs => c.holds answer && holdsEvery answer cs

/-- Whether one of several plans matches. -/
def holdsSome (answer : α → Bool) : List (Plan α) → Bool
  | [] => false
  | c :: cs => c.holds answer || holdsSome answer cs

end

theorem holdsEvery_eq_all (answer : α → Bool) (ps : List (Plan α)) :
    holdsEvery answer ps = ps.all (·.holds answer) := by
  induction ps with
  | nil => rfl
  | cons p ps ih => simp [holdsEvery, ih]

theorem holdsSome_eq_any (answer : α → Bool) (ps : List (Plan α)) :
    holdsSome answer ps = ps.any (·.holds answer) := by
  induction ps with
  | nil => rfl
  | cons p ps ih => simp [holdsSome, ih]

@[simp] theorem holds_intersection (answer : α → Bool) (ps : List (Plan α)) :
    (Plan.intersection ps).holds answer = ps.all (·.holds answer) := by
  rw [holds, holdsEvery_eq_all]

@[simp] theorem holds_union (answer : α → Bool) (ps : List (Plan α)) :
    (Plan.union ps).holds answer = ps.any (·.holds answer) := by
  rw [holds, holdsSome_eq_any]

@[simp] theorem holds_leaf (answer : α → Bool) (a : α) :
    (Plan.leaf a).holds answer = answer a := by
  rw [holds]

@[simp] theorem holds_negation (answer : α → Bool) (p : Plan α) :
    (Plan.negation p).holds answer = !p.holds answer := by
  rw [holds]

@[simp] theorem holds_dropped (answer : α → Bool) (reason : String) :
    (Plan.dropped reason).holds answer = false := by
  rw [holds]

/-- Two negations cancel in the formula as well. -/
@[simp] theorem holds_negate (answer : α → Bool) (p : Plan α) :
    p.negate.holds answer = !p.holds answer := by
  cases p <;> simp [negate]

theorem holds_of_ofJunction?_and {answer : α → Bool} {ps : List (Plan α)} {plan : Plan α}
    (h : ofJunction? .and ps = some plan) : plan.holds answer = ps.all (·.holds answer) := by
  unfold ofJunction? at h
  split at h
  · cases h
  · cases h; simp
  · cases h; simp

theorem holds_of_ofJunction?_or {answer : α → Bool} {ps : List (Plan α)} {plan : Plan α}
    (h : ofJunction? .or ps = some plan) : plan.holds answer = ps.any (·.holds answer) := by
  unfold ofJunction? at h
  split at h
  · cases h
  · cases h; simp
  · cases h; simp

mutual

theorem holds_map (f : α → β) (answer : β → Bool) :
    ∀ p : Plan α, (p.map f).holds answer = p.holds fun a => answer (f a)
  | .intersection cs => by
    have h := holdsEvery_mapAll f answer cs
    rwa [map, holds, holds]
  | .union cs => by
    have h := holdsSome_mapAll f answer cs
    rwa [map, holds, holds]
  | .leaf a => by rw [map, holds, holds]
  | .negation p => by rw [map, holds, holds, holds_map f answer p]
  | .dropped reason => by rw [map, holds, holds]

theorem holdsEvery_mapAll (f : α → β) (answer : β → Bool) :
    ∀ ps : List (Plan α), holdsEvery answer (mapAll f ps) = holdsEvery (fun a => answer (f a)) ps
  | [] => rfl
  | p :: ps => by
    rw [mapAll, holdsEvery, holdsEvery, holds_map f answer p, holdsEvery_mapAll f answer ps]

theorem holdsSome_mapAll (f : α → β) (answer : β → Bool) :
    ∀ ps : List (Plan α), holdsSome answer (mapAll f ps) = holdsSome (fun a => answer (f a)) ps
  | [] => rfl
  | p :: ps => by
    rw [mapAll, holdsSome, holdsSome, holds_map f answer p, holdsSome_mapAll f answer ps]

end

end Plan

/-! ## Answers of leaves -/

/-- Whether a leaf finds a value. -/
def Leaf.matched (leaf : Leaf) : Bool := (leaf.evaluate ∅).matched

/-- A leaf matches when its scan of the field index gathers a value. -/
theorem Leaf.matched_evaluate_eq (leaf : Leaf) (d : Document) :
    (leaf.evaluate d).matched =
      !(leaf.gather Lookup.fieldValue? (!leaf.lookup.aggregate) leaf.lookup.scanRange).1.isEmpty := by
  dsimp only [evaluate]
  rcases leaf.gather Lookup.fieldValue? (!leaf.lookup.aggregate) leaf.lookup.scanRange
    with ⟨_ | ⟨value, values⟩, next⟩
  · rfl
  · dsimp only
    split
    · rfl
    · split <;> rfl

/-- A leaf answers alike whatever was collected before it. -/
theorem Leaf.matched_evaluate (leaf : Leaf) (d : Document) :
    (leaf.evaluate d).matched = leaf.matched := by
  unfold matched
  rw [matched_evaluate_eq, matched_evaluate_eq]

/-- Whether a source has a value that a look-up asks for. -/
def Lookup.foundIn (l : Lookup) (source : Source) : Bool := (Leaf.start l source).matched

/-! ## Answers of plans -/

namespace RunningPlan

mutual

/-- Evaluating a plan answers with its formula over the answers of its leaves. -/
theorem matched_evaluateInto :
    ∀ (p : RunningPlan) (d : Document), (evaluateInto p d).matched = p.holds Leaf.matched
  | .leaf l, d => by rw [evaluateInto, Plan.holds, ← l.matched_evaluate d]
  | .intersection cs, d => by rw [evaluateInto, Plan.holds, ← matched_evaluateEvery cs d]
  | .union cs, d => by rw [evaluateInto, Plan.holds, ← matched_evaluateSome cs d]
  | .negation p, d => by rw [evaluateInto, Plan.holds, ← matched_evaluateInto p ∅]
  | .dropped reason, d => by rw [evaluateInto, Plan.holds]

theorem matched_evaluateEvery :
    ∀ (ps : List RunningPlan) (d : Document),
      (evaluateEvery ps d).matched = Plan.holdsEvery Leaf.matched ps
  | [], d => by rw [evaluateEvery, Plan.holdsEvery]
  | p :: ps, d => by
    have hp := matched_evaluateInto p d
    have hps := matched_evaluateEvery ps (evaluateInto p d).document
    simp only [evaluateEvery, Plan.holdsEvery, ← hp, ← hps]
    -- the rest is only evaluated behind a child that matches
    cases hm : (evaluateInto p d).matched <;> simp

theorem matched_evaluateSome :
    ∀ (ps : List RunningPlan) (d : Document),
      (evaluateSome ps d).matched = Plan.holdsSome Leaf.matched ps
  | [], d => by rw [evaluateSome, Plan.holdsSome]
  | p :: ps, d => by
    have hp := matched_evaluateInto p d
    have hps := matched_evaluateSome ps (evaluateInto p d).document
    simp only [evaluateSome, Plan.holdsSome, ← hp, ← hps]

end

/-- A plan that has just been started answers with its formula over the source. -/
theorem matched_evaluate_start (plan : Plan Lookup) (source : Source) :
    (plan.start source).evaluate.matched = plan.holds (·.foundIn source) := by
  show (evaluateInto (plan.start source) ∅).matched = _
  rw [matched_evaluateInto, Plan.start, Plan.holds_map]
  rfl

end RunningPlan

end IndexQuery
