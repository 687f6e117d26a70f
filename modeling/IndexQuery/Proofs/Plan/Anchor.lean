import IndexQuery.Proofs.Plan.Shape

/-! # Anchors of plans

    Negations find no records, so that a plan needs a look-up that does. The check of
    the compiler takes any child of an intersection for such a look-up that is not a
    negation itself.

    * `Plan.grounded`: the plans that match only where a look-up beneath no negation
      matches.
    * `Compiler.grounded_of_unanchored?`: what the check lets pass is grounded, if the
      children that it takes for anchors are.
    * `exists_positiveLeaf_of_matched`: a compiled plan with such anchors is anchored by
      a look-up that matches.
    * `not_forall_exists_positiveLeaf`: a union of negations is no anchor, but is taken
      for one.
-/

namespace IndexQuery

namespace Plan

variable {α : Type}

/-! ## Leaves beneath no negation -/

mutual

/-- The leaves that stand beneath no negation, in the order of evaluation. -/
def positiveLeaves : Plan α → List α
  | .intersection cs | .union cs => positiveLeavesAll cs
  | .leaf a => [a]
  | .negation _ | .dropped _ => []

/-- The leaves of several plans that stand beneath no negation. -/
def positiveLeavesAll : List (Plan α) → List α
  | [] => []
  | c :: cs => c.positiveLeaves ++ positiveLeavesAll cs

end

theorem mem_positiveLeavesAll {a : α} {cs : List (Plan α)} :
    a ∈ positiveLeavesAll cs ↔ ∃ c ∈ cs, a ∈ c.positiveLeaves := by
  induction cs with
  | nil => simp [positiveLeavesAll]
  | cons c cs ih => simp [positiveLeavesAll, ih]

theorem mem_leavesAll {a : α} {cs : List (Plan α)} :
    a ∈ leavesAll cs ↔ ∃ c ∈ cs, a ∈ c.leaves := by
  induction cs with
  | nil => simp [leavesAll]
  | cons c cs ih => simp [leavesAll, ih]

theorem mem_leaves_of_mem_positiveLeaves {a : α} (p : Plan α) (h : a ∈ p.positiveLeaves) :
    a ∈ p.leaves := by
  induction p using Plan.induction with
  | intersection cs ih | union cs ih =>
    rw [positiveLeaves, mem_positiveLeavesAll] at h
    obtain ⟨c, hc, ha⟩ := h
    rw [leaves, mem_leavesAll]
    exact ⟨c, hc, ih c hc ha⟩
  | leaf b => exact h
  | negation p _ | dropped reason => simp [positiveLeaves] at h

/-! ## Grounded plans -/

mutual

/-- Whether a plan cannot match unless a leaf beneath no negation does. -/
def grounded : Plan α → Bool
  | .intersection cs => groundedSome cs
  | .union cs => groundedEvery cs
  | .leaf _ | .dropped _ => true
  | .negation _ => false

/-- Whether one of several plans is grounded. -/
def groundedSome : List (Plan α) → Bool
  | [] => false
  | c :: cs => c.grounded || groundedSome cs

/-- Whether all of several plans are grounded. -/
def groundedEvery : List (Plan α) → Bool
  | [] => true
  | c :: cs => c.grounded && groundedEvery cs

end

@[simp] theorem grounded_intersection (cs : List (Plan α)) :
    (Plan.intersection cs).grounded = cs.any grounded := by
  rw [grounded]
  induction cs with
  | nil => rfl
  | cons c cs ih => rw [groundedSome, ih, List.any_cons]

@[simp] theorem grounded_union (cs : List (Plan α)) :
    (Plan.union cs).grounded = cs.all grounded := by
  rw [grounded]
  induction cs with
  | nil => rfl
  | cons c cs ih => rw [groundedEvery, ih, List.all_cons]

/-- A grounded plan that matches has a leaf beneath no negation that matches. -/
theorem exists_of_grounded {answer : α → Bool} (p : Plan α) (h : p.grounded = true)
    (hp : p.holds answer = true) : ∃ a ∈ p.positiveLeaves, answer a = true := by
  induction p using Plan.induction with
  | intersection cs ih =>
    rw [grounded_intersection, List.any_eq_true] at h
    obtain ⟨c, hc, hgrounded⟩ := h
    rw [holds_intersection, List.all_eq_true] at hp
    -- all children match, so the grounded one does
    obtain ⟨a, ha, hanswer⟩ := ih c hc hgrounded (hp c hc)
    exact ⟨a, mem_positiveLeavesAll.2 ⟨c, hc, ha⟩, hanswer⟩
  | union cs ih =>
    rw [holds_union, List.any_eq_true] at hp
    obtain ⟨c, hc, hholds⟩ := hp
    rw [grounded_union, List.all_eq_true] at h
    -- all children are grounded, so the one that matches is
    obtain ⟨a, ha, hanswer⟩ := ih c hc (h c hc) hholds
    exact ⟨a, mem_positiveLeavesAll.2 ⟨c, hc, ha⟩, hanswer⟩
  | leaf a => exact ⟨a, List.mem_singleton_self a, by simpa using hp⟩
  | negation p _ => simp [grounded] at h
  | dropped reason => simp at hp

/-! ## Anchors -/

mutual

/-- Whether the children that the compiler takes for anchors are such: an intersection
    with a child that is no negation has a grounded one. What stands beneath an
    intersection or a negation does not count, for there nothing has to be found. -/
def trulyAnchored : Plan α → Bool
  | .intersection cs => cs.all isNegation || cs.any grounded
  | .union cs => trulyAnchoredEvery cs
  | .leaf _ | .negation _ | .dropped _ => true

/-- Whether all of several plans are truly anchored. -/
def trulyAnchoredEvery : List (Plan α) → Bool
  | [] => true
  | c :: cs => c.trulyAnchored && trulyAnchoredEvery cs

end

@[simp] theorem trulyAnchored_union (cs : List (Plan α)) :
    (Plan.union cs).trulyAnchored = cs.all trulyAnchored := by
  rw [trulyAnchored]
  induction cs with
  | nil => rfl
  | cons c cs ih => rw [trulyAnchoredEvery, ih, List.all_cons]

end Plan

namespace Compiler

/-! ## The check -/

theorem unanchoredAmong?_eq_none {anchored : Bool} {ps : List (Plan Lookup)} :
    unanchoredAmong? anchored ps = none ↔ ∀ p ∈ ps, unanchored? anchored p = none := by
  induction ps with
  | nil => simp [unanchoredAmong?]
  | cons p ps ih => simp [unanchoredAmong?, Option.or_eq_none_iff, ih]

/-- Beneath an anchor nothing is missed. -/
theorem unanchored?_true (p : Plan Lookup) : unanchored? true p = none := by
  induction p using Plan.induction with
  | intersection cs ih | union cs ih =>
    rw [unanchored?, unanchoredAmong?_eq_none]
    exact ih
  | leaf l | dropped reason => rw [unanchored?]
  | negation p ih => rw [unanchored?, if_pos rfl, ih]

/-- Without an anchor above, the check lets no negation pass. -/
theorem not_isNegation_of_unanchored? {p : Plan Lookup} (h : unanchored? false p = none) :
    p.isNegation = false := by
  cases p with
  | negation p => simp [unanchored?] at h
  | intersection cs | union cs | leaf l | dropped reason => rfl

/-- What the check lets pass is grounded, if what it takes for anchors is. -/
theorem grounded_of_unanchored? {p : Plan Lookup} (hfilled : p.Filled)
    (hcheck : unanchored? false p = none) (hanchors : p.trulyAnchored = true) :
    p.grounded = true := by
  induction hfilled with
  | @intersection p ps _ _ =>
    rw [Plan.trulyAnchored, Bool.or_eq_true] at hanchors
    rcases hanchors with hnegations | hgrounded
    · -- nothing but negations, of which the check finds the first
      have hnone : ((p :: ps).any fun r => !r.isNegation) = false := by
        rw [List.any_eq_false]
        intro r hr
        simp [List.all_eq_true.1 hnegations r hr]
      rw [unanchored?, hnone, Bool.or_self, unanchoredAmong?_eq_none] at hcheck
      have hfirst := not_isNegation_of_unanchored? (hcheck p List.mem_cons_self)
      rw [List.all_eq_true.1 hnegations p List.mem_cons_self] at hfirst
      cases hfirst
    · rw [Plan.grounded_intersection]
      exact hgrounded
  | @union ps _ ih =>
    rw [unanchored?, unanchoredAmong?_eq_none] at hcheck
    rw [Plan.trulyAnchored_union, List.all_eq_true] at hanchors
    rw [Plan.grounded_union, List.all_eq_true]
    intro r hr
    exact ih r hr (hcheck r hr) (hanchors r hr)
  | leaf l => rfl
  | negation _ _ => simp [unanchored?] at hcheck
  | dropped reason => rfl

end Compiler

/-! ## Compiled plans -/

/-- A compiled plan has passed the check. -/
theorem Query.unanchored?_of_compile {q : Query} {record : RecordId} {options : PlanOptions}
    {plan : Plan Lookup} (h : q.compile record options = .ok plan) :
    Compiler.unanchored? false plan = none := by
  have hplan := planWith_of_compile h
  simp only [compile, hplan, bind, Except.bind, pure, Except.pure] at h
  split at h
  · cases h
  · split at h
    · cases h
    · assumption

/-- Where a compiled plan matches, a look-up matches that stands beneath no negation, if
    the children that are taken for anchors are such. -/
theorem exists_positiveLeaf_of_matched {q : Query} {record : RecordId} {options : PlanOptions}
    {plan : Plan Lookup} (source : Source) (hplan : q.compile record options = .ok plan)
    (hanchors : plan.trulyAnchored = true) (hmatched : (plan.start source).evaluate.matched = true) :
    ∃ l ∈ plan.leaves, l ∈ plan.positiveLeaves ∧ l.foundIn source = true := by
  have hfilled : plan.Filled := Compiler.filled_planWith (Query.planWith_of_compile hplan)
  have hgrounded : plan.grounded = true :=
    Compiler.grounded_of_unanchored? hfilled (Query.unanchored?_of_compile hplan) hanchors
  rw [RunningPlan.matched_evaluate_start] at hmatched
  obtain ⟨l, hl, hfound⟩ := plan.exists_of_grounded hgrounded hmatched
  exact ⟨l, plan.mem_leaves_of_mem_positiveLeaves hl, hl, hfound⟩

/-! ### Unions as anchors -/

/-- `(A == 'a' || B == 'b') && !(B == 'c' && A == 'b')` -/
def unionQuery : Query :=
  .conj [.disj [.compareWith .eq "A" (.string "a"), .compareWith .eq "B" (.string "b")],
    .not (.conj [.compareWith .eq "B" (.string "c"), .compareWith .eq "A" (.string "b")])]

def unionPlan : Plan Lookup :=
  let compiler : Compiler := ⟨eventRecord, eventOptions⟩
  .intersection
    [.union [compiler.lookup "A" (.point "a"), compiler.lookup "B" (.point "b")],
      .negation (.intersection [compiler.lookup "B" (.point "c"), compiler.lookup "A" (.point "b")])]

/-- A union of look-ups is an anchor. -/
theorem exists_positiveLeaf_unionPlan :
    unionQuery.compile eventRecord eventOptions = .ok unionPlan ∧
      unionPlan.trulyAnchored = true ∧ (unionPlan.start eventSource).evaluate.matched = true ∧
      ∃ l ∈ unionPlan.leaves, l ∈ unionPlan.positiveLeaves ∧ l.foundIn eventSource = true := by
  have hplan : unionQuery.compile eventRecord eventOptions = .ok unionPlan := rfl
  have hmatched : (unionPlan.start eventSource).evaluate.matched = true := rfl
  exact ⟨hplan, rfl, hmatched, exists_positiveLeaf_of_matched eventSource hplan rfl hmatched⟩

/-- `(A != 'a' || A != 'b') && B != 'b'` -/
def unequalQuery : Query :=
  .conj [.disj [.compareWith .ne "A" (.string "a"), .compareWith .ne "A" (.string "b")],
    .compareWith .ne "B" (.string "b")]

def unequalPlan : Plan Lookup :=
  let compiler : Compiler := ⟨eventRecord, eventOptions⟩
  .intersection
    [.union [.negation (compiler.lookup "A" (.point "a")), .negation (compiler.lookup "A" (.point "b"))],
      .negation (compiler.lookup "B" (.point "b"))]

/-- A union of negations is taken for an anchor: the plan matches where nothing is found. -/
theorem not_forall_exists_positiveLeaf :
    ¬ ∀ (q : Query) (record : RecordId) (options : PlanOptions) (plan : Plan Lookup)
        (source : Source), q.compile record options = .ok plan →
      (plan.start source).evaluate.matched = true →
      ∃ l ∈ plan.leaves, l ∈ plan.positiveLeaves ∧ l.foundIn source = true := by
  intro hall
  have hplan : unequalQuery.compile eventRecord eventOptions = .ok unequalPlan := rfl
  have hmatched : (unequalPlan.start {}).evaluate.matched = true := rfl
  obtain ⟨l, -, hl, -⟩ := hall unequalQuery eventRecord eventOptions unequalPlan {} hplan hmatched
  have hnone : unequalPlan.positiveLeaves = [] := rfl
  rw [hnone] at hl
  cases hl

end IndexQuery
