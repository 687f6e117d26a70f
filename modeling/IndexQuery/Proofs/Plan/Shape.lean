import IndexQuery.Proofs.Outcome
import IndexQuery.Proofs.Plan.Coverage
import IndexQuery.Proofs.Query.Truth

/-! # The shape of compiled plans

    The plan of a node is built from the plans of its children. What a compiled plan
    looks like and whether there is one are two readings of that.

    * `Compiler.planWith_induction`: what is kept on the way up holds of every compiled
      plan.
    * `Compiler.filled_planWith`: no compiled intersection is empty.
    * `Compiler.planAll_eq_ok`: the plans of several children that raise no error.
-/

namespace IndexQuery

/-- The plans in which every intersection has children. -/
inductive Plan.Filled {α : Type} : Plan α → Prop where
  | intersection {p : Plan α} {ps : List (Plan α)} (h : ∀ r ∈ p :: ps, Filled r) :
    Filled (.intersection (p :: ps))
  | union {ps : List (Plan α)} (h : ∀ r ∈ ps, Filled r) : Filled (.union ps)
  | leaf (a : α) : Filled (.leaf a)
  | negation {p : Plan α} (h : Filled p) : Filled (.negation p)
  | dropped (reason : String) : Filled (.dropped reason)

theorem Plan.Filled.negate {α : Type} {p : Plan α} (h : p.Filled) : p.negate.Filled := by
  cases h with
  | negation h => exact h
  | intersection h => exact .negation (.intersection h)
  | union h => exact .negation (.union h)
  | leaf a => exact .negation (.leaf a)
  | dropped reason => exact .negation (.dropped reason)

namespace Compiler

variable {c : Compiler}

/-! ## From the plan of a node to those of its children -/

/-- The plan of a junction is made of the plans of its children. -/
theorem exists_of_planWith_junction {negated : Bool} {kind : Junction} {cs : List Query}
    {plan : Plan Lookup} (h : c.planWith negated (.junction kind cs) = .ok (some plan)) :
    ∃ plans, c.planAll negated (kind = .or || negated) cs = .ok (some plans) ∧
      Plan.ofJunction? kind plans = some plan := by
  rw [planWith] at h
  obtain ⟨plans?, hplans, h⟩ := bind_eq_ok.1 h
  cases plans? with
  | none => cases h
  | some plans => exact ⟨plans, hplans, Except.ok.inj h⟩

theorem exists_of_planWith_not {negated : Bool} {q : Query} {plan : Plan Lookup}
    (h : c.planWith negated (.not q) = .ok (some plan)) :
    ∃ inner, c.planWith (!negated) q = .ok (some inner) ∧ plan = inner.negate := by
  rw [planWith] at h
  obtain ⟨plan?, hplan, h⟩ := bind_eq_ok.1 h
  obtain ⟨inner, rfl, hnegate⟩ := Option.map_eq_some_iff.1 (Except.ok.inj h)
  exact ⟨inner, hplan, hnegate.symm⟩

/-- Each plan of several children is the plan of one of them. -/
theorem exists_of_mem_planAll {negated required : Bool} :
    ∀ {cs : List Query} {plans : List (Plan Lookup)},
      c.planAll negated required cs = .ok (some plans) →
      ∀ p ∈ plans, ∃ q ∈ cs, c.planWith negated q = .ok (some p)
  | [], plans, h, p, hp => by
    cases h
    cases hp
  | q :: rest, plans, h, p, hp => by
    rw [planAll] at h
    obtain ⟨plan?, hplan, h⟩ := bind_eq_ok.1 h
    cases plan? with
    | some plan =>
      obtain ⟨plans?, hrest, h⟩ := bind_eq_ok.1 h
      obtain ⟨others, rfl, rfl⟩ := Option.map_eq_some_iff.1 (Except.ok.inj h)
      rcases List.mem_cons.1 hp with rfl | hp
      · exact ⟨q, List.mem_cons_self, hplan⟩
      · obtain ⟨q', hq', hplan'⟩ := exists_of_mem_planAll hrest p hp
        exact ⟨q', List.mem_cons_of_mem q hq', hplan'⟩
    | none =>
      cases required with
      | true => cases h
      | false =>
        obtain ⟨q', hq', hplan'⟩ := exists_of_mem_planAll h p hp
        exact ⟨q', List.mem_cons_of_mem q hq', hplan'⟩

/-- What holds of look-ups and of dropped clauses, and is kept by negations and by
    junctions of several plans, holds of every compiled plan. -/
theorem planWith_induction {motive : Plan Lookup → Prop} (hleaf : ∀ l, motive (.leaf l))
    (hdropped : ∀ reason, motive (.dropped reason))
    (hnegate : ∀ p, motive p → motive p.negate)
    (hintersection : ∀ p q ps, (∀ r ∈ p :: q :: ps, motive r) → motive (.intersection (p :: q :: ps)))
    (hunion : ∀ p q ps, (∀ r ∈ p :: q :: ps, motive r) → motive (.union (p :: q :: ps)))
    {q : Query} {negated : Bool} {plan : Plan Lookup}
    (h : c.planWith negated q = .ok (some plan)) : motive plan := by
  induction q using Query.induction generalizing negated plan with
  | junction kind cs ih =>
    obtain ⟨plans, hplans, hjoined⟩ := exists_of_planWith_junction h
    have hall : ∀ p ∈ plans, motive p := by
      intro p hp
      obtain ⟨q, hq, hplan⟩ := exists_of_mem_planAll hplans p hp
      exact ih q hq hplan
    match plans, kind, hjoined with
    | [p], _, hjoined =>
      cases hjoined
      exact hall _ List.mem_cons_self
    | p :: q :: ps, .and, hjoined =>
      cases hjoined
      exact hintersection p q ps hall
    | p :: q :: ps, .or, hjoined =>
      cases hjoined
      exact hunion p q ps hall
  | not q ih =>
    obtain ⟨inner, hinner, rfl⟩ := exists_of_planWith_not h
    exact hnegate inner (ih hinner)
  | compare leaf =>
    rw [planWith] at h
    obtain ⟨l, rfl⟩ := lookup_of_comparisonPlan h
    split
    · exact hnegate (.leaf l) (hleaf l)
    · exact hleaf l
  | call call =>
    rw [planWith] at h
    cases h
  | group q ih =>
    rw [planWith] at h
    exact ih h
  | marked m note q ih =>
    rcases c.planWith_marked negated m note q with
      ⟨b, -, hplan⟩ | ⟨reason, -, hplan⟩ | ⟨-, hplan⟩ | ⟨-, -, hplan⟩ <;> rw [hplan] at h
    · obtain ⟨l, rfl⟩ := lookup_of_rangePlan (Except.ok.inj h)
      exact hleaf l
    · cases h
      exact hdropped reason
    · cases h
    · exact ih h

theorem filled_planWith {q : Query} {negated : Bool} {plan : Plan Lookup}
    (h : c.planWith negated q = .ok (some plan)) : plan.Filled :=
  planWith_induction .leaf .dropped (fun _ hp => hp.negate) (fun _ _ _ hps => .intersection hps)
    (fun _ _ _ hps => .union hps) h

/-! ## From the plans of children to that of their node -/

theorem planWith_junction {negated : Bool} {kind : Junction} {cs : List Query}
    {plans : List (Plan Lookup)}
    (h : c.planAll negated (kind = .or || negated) cs = .ok (some plans)) :
    c.planWith negated (.junction kind cs) = .ok (Plan.ofJunction? kind plans) := by
  simp [planWith, h, bind, Except.bind, pure, Except.pure]

theorem planWith_not {negated : Bool} {q : Query} {plan : Plan Lookup}
    (h : c.planWith (!negated) q = .ok (some plan)) :
    c.planWith negated (.not q) = .ok (some plan.negate) := by
  simp [planWith, h, bind, Except.bind, pure, Except.pure]

/-- The plan of a query that raises no error, if it has one. -/
def plan? (c : Compiler) (negated : Bool) (q : Query) : Option (Plan Lookup) :=
  (c.planWith negated q).toOption.getD none

theorem planWith_eq_ok {negated : Bool} {q : Query}
    (h : ∃ plan?, c.planWith negated q = .ok plan?) :
    c.planWith negated q = .ok (c.plan? negated q) := by
  obtain ⟨plan?, h⟩ := h
  rw [Compiler.plan?, h]
  rfl

/-- Where no child raises an error, the children together raise none. Required children
    have plans when each one has. -/
theorem planAll_eq_ok {negated required : Bool} {cs : List Query}
    (h : ∀ q ∈ cs, ∃ plan?, c.planWith negated q = .ok plan?) :
    c.planAll negated required cs =
      .ok (if required then cs.mapM (c.plan? negated)
        else some (cs.filterMap (c.plan? negated))) := by
  induction cs with
  | nil => cases required <;> rfl
  | cons q cs ih =>
    have hq := planWith_eq_ok (h q List.mem_cons_self)
    have hcs := ih fun r hr => h r (List.mem_cons_of_mem q hr)
    rw [planAll, hq, hcs]
    cases hplan : c.plan? negated q with
    | none => cases required <;> simp [hplan, bind, Except.bind, pure, Except.pure]
    | some plan =>
      cases required with
      | false => simp [hplan, bind, Except.bind, pure, Except.pure]
      | true =>
        cases hrest : cs.mapM (c.plan? negated) <;>
          simp [hplan, hrest, bind, Except.bind, pure, Except.pure]

/-- Where every child has a plan, so have they together. -/
theorem exists_planAll {negated required : Bool} {cs : List Query}
    (h : ∀ q ∈ cs, ∃ plan, c.planWith negated q = .ok (some plan)) :
    ∃ plans, c.planAll negated required cs = .ok (some plans) ∧ plans.length = cs.length := by
  induction cs with
  | nil => exact ⟨[], rfl, rfl⟩
  | cons q cs ih =>
    obtain ⟨plan, hplan⟩ := h q List.mem_cons_self
    obtain ⟨plans, hplans, hlength⟩ := ih fun r hr => h r (List.mem_cons_of_mem q hr)
    refine ⟨plan :: plans, ?_, congrArg (· + 1) hlength⟩
    rw [planAll, hplan, hplans]
    rfl

end Compiler

end IndexQuery
