import IndexQuery.Plan.Compile
import IndexQuery.Proofs.Plan.Evaluation
import IndexQuery.Proofs.Query.Truth

/-! # Plans miss no record

    The index answers only some of the clauses of a query. Whatever the truth of
    the others is, a record on which the query is true is found by the plan.

    * `Compiler.truthAt`: the truth of a query on a record, where the clauses that
      have a look-up are true as the source says, and all others as one likes.
    * `Compiler.planWith_marked`: all that a marked query can be compiled to.
    * `Compiler.covers_planWith`: a plan finds at least the records of its query
      above an even number of negations, and at most those above an odd number.
    * `matched_of_truthAt`: a compiled plan matches where its query is true.
-/

namespace IndexQuery

/-- The look-up in a plan that is a look-up or the negation of one. -/
def Plan.lookup? {α : Type} : Plan α → Option α
  | .leaf a | .negation (.leaf a) => some a
  | _ => none

/-- The markers that hand on the plan of what they mark, unless that makes a range. -/
def Marker.handsOnPlan : Marker → Bool
  | .bounded | .exceededValue | .exceededOr | .list | .term | .lenient | .strict => true
  | .delayed | .evaluationOnly | .exceededTerm | .indexHole | .drop => false

/-- Where a node stands in a query: the number of the child on each level, from the
    node upwards. -/
abbrev Place := List Nat

namespace Compiler

/-! ## Truth of a query -/

/-- The look-up that a comparison is compiled to. -/
def comparisonLookup? (c : Compiler) (leaf : Comparison) : Option Lookup :=
  match c.comparisonPlan leaf with
  | .ok (some plan) => plan.lookup?
  | _ => none

/-- The look-up that a range is compiled to. -/
def rangeLookup? (c : Compiler) (b : Bounds) : Option Lookup := (c.rangePlan b).bind Plan.lookup?

mutual

/-- The truth of the node of a query at a place.

    A comparison or a range with a look-up is true when the source has a value for
    it, or has none if the operator is negative. What is not looked up is true as
    `free` says at its place. A dropped clause is false, the other markers and
    groups change nothing. -/
def truthAt (c : Compiler) (source : Source) (free : Place → Bool) (place : Place) : Query → Bool
  | .junction .and cs => (c.truthsAt source free place 0 cs).all id
  | .junction .or cs => (c.truthsAt source free place 0 cs).any id
  | .not child => !c.truthAt source free (0 :: place) child
  | .group child => c.truthAt source free (0 :: place) child
  | .compare leaf =>
    match c.comparisonLookup? leaf with
    | some l => if leaf.op.isNegative then !l.foundIn source else l.foundIn source
    | none => free place
  | .call _ => free place
  | .marked m note child =>
    match m with
    | .bounded =>
      match (Query.marked .bounded note child).bounds? with
      | some b =>
        match c.rangeLookup? b with
        | some l => l.foundIn source
        | none => free place
      | none => c.truthAt source free (0 :: place) child
    | .drop => false
    | .exceededValue | .exceededOr | .list | .term | .lenient | .strict =>
      c.truthAt source free (0 :: place) child
    | .delayed | .evaluationOnly | .exceededTerm | .indexHole => free place

/-- The truths of the children of a node, which are numbered from `i` on. -/
def truthsAt (c : Compiler) (source : Source) (free : Place → Bool) (place : Place) (i : Nat) :
    List Query → List Bool
  | [] => []
  | q :: rest =>
    c.truthAt source free (i :: place) q :: c.truthsAt source free place (i + 1) rest

end

/-! ## Plans of clauses -/

variable {c : Compiler} {answer : Lookup → Bool}

/-- A look-up for a pattern is a single leaf. -/
theorem lookup_of_regexLookup {field text : String} {plan : Plan Lookup}
    (h : c.regexLookup field text = .ok plan) : ∃ l, plan = .leaf l := by
  unfold regexLookup at h
  split at h
  · cases h
  · split at h
    · cases h
    · cases h; exact ⟨_, rfl⟩

/-- The plan of a comparison is its look-up, negated for a negative operator. -/
theorem lookup_of_matchPlan {op : CompareOp} {field text : String} {plan : Plan Lookup}
    (h : c.matchPlan op field text = .ok (some plan)) :
    ∃ l, plan = if op.isNegative then .negation (.leaf l) else .leaf l := by
  cases op with
  | eq => cases h; exact ⟨_, rfl⟩
  | ne => cases h; exact ⟨_, rfl⟩
  | lt | le | gt | ge => cases h
  | regex | notRegex =>
    cases hr : c.regexLookup field text with
    | error e => simp [matchPlan, hr, Except.map] at h
    | ok p =>
      obtain ⟨l, rfl⟩ := lookup_of_regexLookup hr
      simp only [matchPlan, hr, Except.map, Except.ok.injEq, Option.some.injEq] at h
      exact ⟨l, h.symm⟩

theorem lookup_of_comparisonPlan {leaf : Comparison} {plan : Plan Lookup}
    (h : c.comparisonPlan leaf = .ok (some plan)) :
    ∃ l, plan = if leaf.op.isNegative then .negation (.leaf l) else .leaf l := by
  unfold comparisonPlan at h
  split at h
  · cases h
  · split at h
    · split at h <;> cases h
    · split at h
      · exact lookup_of_matchPlan h
      · cases h

theorem lookup_of_rangePlan {b : Bounds} {plan : Plan Lookup}
    (h : c.rangePlan b = some plan) : ∃ l, plan = .leaf l := by
  unfold rangePlan at h
  split at h
  · cases hl : b.lower.literal.text? with
    | none => simp [hl] at h
    | some lower =>
      cases hu : b.upper.literal.text? with
      | none => simp [hl, hu] at h
      | some upper =>
        simp only [hl, hu, Option.bind_eq_bind, Option.bind_some, Option.pure_def,
          Option.some.injEq] at h
        exact ⟨_, h.symm⟩
  · cases h

/-- A marked query is compiled to a range, to a dropped clause, to nothing or to the plan of
    what it marks. -/
theorem planWith_marked (c : Compiler) (negated : Bool) (m : Marker) (note : Option DropNote)
    (child : Query) :
    (∃ b, (Query.marked m note child).bounds? = some b ∧
        c.planWith negated (.marked m note child) = .ok (c.rangePlan b)) ∨
      (∃ reason, m = .drop ∧
        c.planWith negated (.marked m note child) = .ok (some (.dropped reason))) ∨
      (m.isEvaluationDirective = true ∧ c.planWith negated (.marked m note child) = .ok none) ∨
      (m.handsOnPlan = true ∧ (Query.marked m note child).bounds? = none ∧
        c.planWith negated (.marked m note child) = c.planWith negated child) := by
  cases m with
  | bounded =>
    cases hb : (Query.marked .bounded note child).bounds? with
    | some b => exact .inl ⟨b, rfl, by simp only [planWith, hb]⟩
    | none => exact .inr (.inr (.inr ⟨rfl, rfl, by simp only [planWith, hb]⟩))
  | drop => exact .inr (.inl ⟨_, rfl, by rw [planWith]⟩)
  | delayed | evaluationOnly | exceededTerm | indexHole =>
    exact .inr (.inr (.inl ⟨rfl, by rw [planWith]⟩))
  | exceededValue | exceededOr | list | term | lenient | strict =>
    exact .inr (.inr (.inr ⟨rfl, rfl, by rw [planWith]⟩))

/-! ## Polarity -/

/-- What a plan owes to its query. Above an even number of negations it matches where
    the query is true, and above an odd number only there. -/
def Covers (negated : Bool) (found truth : Bool) : Prop :=
  if negated then found = true → truth = true else truth = true → found = true

theorem covers_rfl (negated b : Bool) : Covers negated b b := by
  cases negated <;> simp [Covers]

/-- A negation turns what is owed around. -/
theorem Covers.not {negated found truth : Bool} (h : Covers (!negated) found truth) :
    Covers negated (!found) (!truth) := by
  cases negated <;> cases found <;> cases truth <;> simp_all [Covers]

/-- What the plans of several children owe to them. Each plan stands for a child, and
    where every child is required, each child has a plan. -/
structure CoversAll (answer : Lookup → Bool) (negated required : Bool)
    (plans : List (Plan Lookup)) (truths : List Bool) : Prop where
  sound : ∀ p ∈ plans, ∃ t ∈ truths, Covers negated (p.holds answer) t
  complete : required = true → ∀ t ∈ truths, ∃ p ∈ plans, Covers negated (p.holds answer) t

theorem coversAll_nil (negated required : Bool) : CoversAll answer negated required [] [] :=
  ⟨by simp, by simp⟩

theorem CoversAll.cons {negated required t : Bool} {p : Plan Lookup} {plans : List (Plan Lookup)}
    {truths : List Bool} (hp : Covers negated (p.holds answer) t)
    (h : CoversAll answer negated required plans truths) :
    CoversAll answer negated required (p :: plans) (t :: truths) where
  sound := by
    intro p' hp'
    rcases List.mem_cons.1 hp' with rfl | hp'
    · exact ⟨t, List.mem_cons_self, hp⟩
    · obtain ⟨t', ht', hc⟩ := h.sound p' hp'
      exact ⟨t', List.mem_cons_of_mem _ ht', hc⟩
  complete := by
    intro hr t' ht'
    rcases List.mem_cons.1 ht' with rfl | ht'
    · exact ⟨p, List.mem_cons_self, hp⟩
    · obtain ⟨p', hp', hc⟩ := h.complete hr t' ht'
      exact ⟨p', List.mem_cons_of_mem _ hp', hc⟩

/-- A child that is not required may go without a plan. -/
theorem CoversAll.skip {negated t : Bool} {plans : List (Plan Lookup)} {truths : List Bool}
    (h : CoversAll answer negated false plans truths) :
    CoversAll answer negated false plans (t :: truths) where
  sound := by
    intro p hp
    obtain ⟨t', ht', hc⟩ := h.sound p hp
    exact ⟨t', List.mem_cons_of_mem _ ht', hc⟩
  complete := by simp

/-- An intersection may leave children out above an even number of negations only. -/
theorem CoversAll.all {negated : Bool} {plans : List (Plan Lookup)} {truths : List Bool}
    (h : CoversAll answer negated negated plans truths) :
    Covers negated (plans.all (·.holds answer)) (truths.all id) := by
  cases negated with
  | false =>
    -- each plan stands for a child, so what is left out only widens the intersection
    intro htruths
    rw [List.all_eq_true] at htruths ⊢
    intro p hp
    obtain ⟨t, ht, hc⟩ := h.sound p hp
    exact hc (htruths t ht)
  | true =>
    intro hfound
    rw [List.all_eq_true] at hfound ⊢
    intro t ht
    obtain ⟨p, hp, hc⟩ := h.complete rfl t ht
    exact hc (hfound p hp)

/-- A union needs a plan for each child. -/
theorem CoversAll.any {negated : Bool} {plans : List (Plan Lookup)} {truths : List Bool}
    (h : CoversAll answer negated true plans truths) :
    Covers negated (plans.any (·.holds answer)) (truths.any id) := by
  cases negated with
  | false =>
    intro htruths
    rw [List.any_eq_true] at htruths ⊢
    obtain ⟨t, ht, htrue⟩ := htruths
    obtain ⟨p, hp, hc⟩ := h.complete rfl t ht
    exact ⟨p, hp, hc htrue⟩
  | true =>
    intro hfound
    rw [List.any_eq_true] at hfound ⊢
    obtain ⟨p, hp, htrue⟩ := hfound
    obtain ⟨t, ht, hc⟩ := h.sound p hp
    exact ⟨t, ht, hc htrue⟩

/-! ## Plans of trees -/

variable {source : Source} {free : Place → Bool}

/-- The plan of a comparison answers with the truth of the comparison. -/
theorem holds_of_comparisonPlan {leaf : Comparison} {plan : Plan Lookup} (place : Place)
    (h : c.comparisonPlan leaf = .ok (some plan)) :
    plan.holds (·.foundIn source) = c.truthAt source free place (.compare leaf) := by
  obtain ⟨l, hl⟩ := lookup_of_comparisonPlan h
  have hlookup : c.comparisonLookup? leaf = some l := by
    simp only [comparisonLookup?, h, hl]
    split <;> rfl
  rw [truthAt, hlookup, hl]
  split <;> simp

/-- The plan of a range answers with the truth of the range. -/
theorem holds_of_rangePlan {m : Marker} {note : Option DropNote} {child : Query} {b : Bounds}
    {plan : Plan Lookup} (place : Place) (hb : (Query.marked m note child).bounds? = some b)
    (h : c.rangePlan b = some plan) :
    plan.holds (·.foundIn source) = c.truthAt source free place (.marked m note child) := by
  obtain ⟨l, rfl⟩ := lookup_of_rangePlan h
  have hlookup : c.rangeLookup? b = some l := by
    rw [rangeLookup?, h]
    rfl
  obtain rfl := Query.eq_bounded_of_bounds? hb
  simp only [truthAt, hb, hlookup, Plan.holds_leaf]

/-- What hands on the plan of what it marks is as true as that. -/
theorem truthAt_of_handsOnPlan {m : Marker} {note : Option DropNote} {child : Query} (place : Place)
    (hm : m.handsOnPlan = true) (hb : (Query.marked m note child).bounds? = none) :
    c.truthAt source free place (.marked m note child) =
      c.truthAt source free (0 :: place) child := by
  cases m with
  | bounded => simp only [truthAt, hb]
  | exceededValue | exceededOr | list | term | lenient | strict => rw [truthAt]
  | delayed | evaluationOnly | exceededTerm | indexHole | drop => cases hm

theorem covers_ofJunction? {kind : Junction} {negated : Bool} {plans : List (Plan Lookup)}
    {plan : Plan Lookup} {place : Place} {cs : List Query}
    (h : CoversAll (·.foundIn source) negated (kind = .or || negated) plans
      (c.truthsAt source free place 0 cs))
    (hplan : Plan.ofJunction? kind plans = some plan) :
    Covers negated (plan.holds (·.foundIn source))
      (c.truthAt source free place (.junction kind cs)) := by
  cases kind with
  | and =>
    rw [Plan.holds_of_ofJunction?_and hplan, truthAt]
    exact CoversAll.all (by simpa using h)
  | or =>
    rw [Plan.holds_of_ofJunction?_or hplan, truthAt]
    exact CoversAll.any (by simpa using h)

mutual

/-- A plan finds at least the records of its query above an even number of negations,
    and at most those above an odd number. -/
theorem covers_planWith :
    ∀ (q : Query) (negated : Bool) (place : Place) (plan : Plan Lookup),
      c.planWith negated q = .ok (some plan) →
      Covers negated (plan.holds (·.foundIn source)) (c.truthAt source free place q)
  | .junction kind cs, negated, place, plan, h => by
    cases hps : c.planAll negated (kind = .or || negated) cs with
    | error e => simp [planWith, hps, bind, Except.bind] at h
    | ok plans? =>
      cases plans? with
      | none => simp [planWith, hps, bind, Except.bind, pure, Except.pure] at h
      | some plans =>
        simp only [planWith, hps, bind, Except.bind, pure, Except.pure, Except.ok.injEq] at h
        exact covers_ofJunction? (coversAll_planAll cs negated _ place 0 plans hps) h
  | .not child, negated, place, plan, h => by
    cases hp : c.planWith (!negated) child with
    | error e => simp [planWith, hp, bind, Except.bind] at h
    | ok plan? =>
      simp only [planWith, hp, bind, Except.bind, pure, Except.pure, Except.ok.injEq,
        Option.map_eq_some_iff] at h
      obtain ⟨inner, rfl, rfl⟩ := h
      -- beneath the negation the other direction is owed
      have hinner := covers_planWith child (!negated) (0 :: place) inner hp
      rw [Plan.holds_negate, truthAt]
      exact hinner.not
  | .group child, negated, place, plan, h => by
    rw [planWith] at h
    rw [truthAt]
    exact covers_planWith child negated (0 :: place) plan h
  | .compare leaf, negated, place, plan, h => by
    rw [planWith] at h
    rw [holds_of_comparisonPlan place h]
    exact covers_rfl _ _
  | .call call, negated, place, plan, h => by
    rw [planWith] at h
    cases h
  | .marked m note child, negated, place, plan, h => by
    have hchild := covers_planWith child negated (0 :: place) plan
    rcases c.planWith_marked negated m note child with
      ⟨b, hb, hplan⟩ | ⟨reason, rfl, hplan⟩ | ⟨-, hplan⟩ | ⟨hm, hb, hplan⟩
    · rw [hplan] at h
      rw [holds_of_rangePlan place hb (Except.ok.inj h)]
      exact covers_rfl _ _
    · -- a dropped clause is never true and its plan never matches
      rw [hplan] at h
      cases h
      rw [truthAt, Plan.holds_dropped]
      exact covers_rfl _ _
    · rw [hplan] at h
      cases h
    · rw [hplan] at h
      rw [truthAt_of_handsOnPlan place hm hb]
      exact hchild h

theorem coversAll_planAll :
    ∀ (cs : List Query) (negated required : Bool) (place : Place) (i : Nat)
      (plans : List (Plan Lookup)),
      c.planAll negated required cs = .ok (some plans) →
      CoversAll (·.foundIn source) negated required plans (c.truthsAt source free place i cs)
  | [], negated, required, place, i, plans, h => by
    rw [planAll] at h
    cases h
    exact coversAll_nil _ _
  | q :: rest, negated, required, place, i, plans, h => by
    rw [truthsAt]
    cases hq : c.planWith negated q with
    | error e => simp [planAll, hq, bind, Except.bind] at h
    | ok plan? =>
      cases plan? with
      | some plan =>
        cases hrest : c.planAll negated required rest with
        | error e => simp [planAll, hq, hrest, bind, Except.bind] at h
        | ok plans? =>
          simp only [planAll, hq, hrest, bind, Except.bind, pure, Except.pure, Except.ok.injEq,
            Option.map_eq_some_iff] at h
          obtain ⟨others, rfl, rfl⟩ := h
          exact CoversAll.cons (covers_planWith q negated (i :: place) plan hq)
            (coversAll_planAll rest negated required place (i + 1) others hrest)
      | none =>
        -- where every child is required, one without a plan leaves all without
        cases required with
        | true => simp [planAll, hq, bind, Except.bind, pure, Except.pure] at h
        | false =>
          simp only [planAll, hq, bind, Except.bind, Bool.false_eq_true, if_false] at h
          exact (coversAll_planAll rest negated false place (i + 1) plans h).skip

end

end Compiler

/-! ## Compiled plans -/

/-- The plan that a query is compiled to is that of the tree above no negation. -/
theorem Query.planWith_of_compile {q : Query} {record : RecordId} {options : PlanOptions}
    {plan : Plan Lookup} (h : q.compile record options = .ok plan) :
    Compiler.planWith ⟨record, options⟩ false q = .ok (some plan) := by
  unfold compile at h
  cases hp : Compiler.planWith ⟨record, options⟩ false q with
  | error e => simp [hp, bind, Except.bind] at h
  | ok plan? =>
    cases plan? with
    | none => simp [hp, bind, Except.bind] at h
    | some p =>
      simp only [hp, bind, Except.bind, pure, Except.pure] at h
      split at h
      · cases h
      · split at h
        · cases h
        · cases h
          rfl

/-- A compiled plan matches every record on which its query is true, whatever the
    truth of the clauses without a look-up. -/
theorem matched_of_truthAt {q : Query} {record : RecordId} {options : PlanOptions}
    {plan : Plan Lookup} (source : Source) (free : Place → Bool)
    (hplan : q.compile record options = .ok plan)
    (htrue : Compiler.truthAt ⟨record, options⟩ source free [] q = true) :
    (plan.start source).evaluate.matched = true := by
  have hcovers : Compiler.Covers false (plan.holds (·.foundIn source))
      (Compiler.truthAt ⟨record, options⟩ source free [] q) :=
    Compiler.covers_planWith q false [] plan (Query.planWith_of_compile hplan)
  rw [RunningPlan.matched_evaluate_start]
  exact hcovers htrue

/-! ### A conjunction that goes without a look-up beneath a negation -/

/-- An event with two values in the index. -/
def eventRecord : RecordId := ⟨"20240101_0", "event", "uid.1"⟩

def eventSource : Source :=
  (Source.writeBoth {} eventRecord "A" "a" 1).writeBoth eventRecord "B" "b" 1

def eventOptions : PlanOptions := { indexedFields := some (.ofList ["A", "B"]) }

/-- `A == 'a' && !(B == 'b' && EVENT == 'x') && B != 'c'` -/
def eventQuery : Query :=
  .conj [.compareWith .eq "A" (.string "a"),
    .not (.conj [.compareWith .eq "B" (.string "b"), .compareWith .eq "EVENT" (.string "x")]),
    .compareWith .ne "B" (.string "c")]

/-- Nothing is looked up for the negated conjunction, since `EVENT` has no index entries. -/
def eventPlan : Plan Lookup :=
  let compiler : Compiler := ⟨eventRecord, eventOptions⟩
  .intersection
    [compiler.lookup "A" (.point "a"), .negation (compiler.lookup "B" (.point "c"))]

theorem matched_eventPlan :
    eventQuery.compile eventRecord eventOptions = .ok eventPlan ∧
      Compiler.truthAt ⟨eventRecord, eventOptions⟩ eventSource (fun _ => false) [] eventQuery
        = true ∧
      (eventPlan.start eventSource).evaluate.matched = true := by
  have hplan : eventQuery.compile eventRecord eventOptions = .ok eventPlan := rfl
  have htrue : Compiler.truthAt ⟨eventRecord, eventOptions⟩ eventSource (fun _ => false) []
      eventQuery = true := rfl
  exact ⟨hplan, htrue, matched_of_truthAt eventSource (fun _ => false) hplan htrue⟩

end IndexQuery
