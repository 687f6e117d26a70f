import IndexQuery.Proofs.Executability.Finding
import IndexQuery.Proofs.Plan.Anchor

/-! # Executable queries have plans

    Whether the index of all records answers a query is judged before the query is
    compiled, and by other code. The two agree on queries that are executable.

    * `Compiler.exists_planWith_of_ne_error`: no error is raised for a query whose state
      is none.
    * `Compiler.exists_anchored_planWith`: a query that finds its records, or asks for
      nothing, has a plan with an anchor of its own. Beneath an odd number of negations
      the query is a negation again, for no other one finds records there.
    * `exists_compile_of_executable`: an executable query is compiled.
-/

namespace IndexQuery

/-- The options look up the fields that are known to have index entries. -/
structure PlanOptions.Follows (options : PlanOptions) (fields : FieldSets) : Prop where
  indexed : options.indexedFields = some fields.indexed
  indexOnly : options.indexOnlyFields = fields.indexOnly
  fullScan : options.fullScanDisabled = false

theorem Literal.exists_text? {literal : Literal} (h : literal.isNull = false) :
    ∃ text, literal.text? = some text := by
  cases literal with
  | string text | number text => exact ⟨text, rfl⟩
  | null => cases h

/-- A query that hands on the plan of what it marks is judged like that, unless a limit was
    run into. -/
theorem Classifier.unitState?_of_handsOnPlan {c : Classifier} {m : Marker} {note : Option DropNote}
    {q : Query} (hm : m.handsOnPlan = true) (hb : (Query.marked m note q).bounds? = none)
    (hunlimited : m ≠ .exceededValue ∧ m ≠ .exceededOr) :
    c.unitState? m (.marked m note q) q = none := by
  cases m with
  | bounded => simp [unitState?, unit?, hb]
  | list | term | lenient | strict => rfl
  | exceededValue => exact absurd rfl hunlimited.1
  | exceededOr => exact absurd rfl hunlimited.2
  | delayed | evaluationOnly | exceededTerm | indexHole | drop => cases hm

namespace Compiler

variable {fields : FieldSets} {compiler : Compiler}

/-! ## No errors -/

/-- A comparison whose state is no error raises none. -/
theorem comparisonPlan_of_ne_error {leaf : Comparison}
    (hoptions : compiler.options.Follows fields)
    (honly : ∀ field, fields.indexOnly.contains field = true → fields.nonEvent.contains field = true)
    (hq : (Query.compare leaf).Plannable fields compiler.options.properties)
    (hstate : (Classifier.amongAll fields).leafState leaf ≠ .error) :
    ∃ plan?, compiler.comparisonPlan leaf = .ok plan? := by
  have hself := Query.self_mem_subtrees (.compare leaf)
  obtain ⟨hany, hno⟩ := hq.named leaf hself
  have hanswered : fields.indexOnly.contains leaf.field = true →
      fields.indexed.contains leaf.field = true ∧ leaf.literal.isNull = false := by
    intro h
    cases hindexed : (Classifier.amongAll fields).isIndexed leaf.field && !leaf.literal.isNull with
    | true =>
      rw [Bool.and_eq_true, Bool.not_eq_true'] at hindexed
      exact hindexed
    | false => exact absurd (Classifier.leafState_eq_error hany hno h (honly leaf.field h) hindexed) hstate
  rw [comparisonPlan, if_neg (by simp [hany, hno])]
  cases htext : leaf.literal.text? with
  | none =>
    have hnull : leaf.literal.isNull = true := by
      cases hliteral : leaf.literal <;> simp_all [Literal.text?, Literal.isNull]
    have hkept : ¬ compiler.options.indexOnlyFields.contains leaf.field = true := by
      rw [hoptions.indexOnly]
      intro h
      rw [hnull] at hanswered
      cases (hanswered h).2
    exact ⟨none, if_neg hkept⟩
  | some text =>
    by_cases hindexed : compiler.options.isIndexed leaf.field = true
    · -- the options list fields with index entries and fields of the index alone
      have hentries : fields.indexed.contains leaf.field = true := by
        rw [PlanOptions.isIndexed, hoptions.indexed, hoptions.indexOnly, Bool.or_eq_true] at hindexed
        rcases hindexed with h | h
        · exact h
        · exact (hanswered h).1
      have hregex : leaf.op.isRegex = true → ∃ plan, compiler.regexLookup leaf.field text = .ok plan := by
        intro hop
        obtain ⟨pattern, hpattern⟩ :=
          Option.isSome_iff_exists.1 (hq.patterns leaf hself hop hentries text htext)
        exact ⟨_, by simp [regexLookup, hpattern, hoptions.fullScan]; rfl⟩
      simp only [hindexed, if_true]
      cases hop : leaf.op with
      | eq | ne | lt | le | gt | ge => exact ⟨_, rfl⟩
      | regex | notRegex =>
        obtain ⟨plan, hplan⟩ := hregex (by rw [hop]; rfl)
        rw [matchPlan, hplan]
        exact ⟨_, rfl⟩
    · exact ⟨none, if_neg hindexed⟩

/-- A query whose state is no error raises none. -/
theorem exists_planWith_of_ne_error {q : Query} {negated odd : Bool}
    (hoptions : compiler.options.Follows fields)
    (honly : ∀ field, fields.indexOnly.contains field = true → fields.nonEvent.contains field = true)
    (hq : q.Plannable fields compiler.options.properties)
    (hstate : (Classifier.amongAll fields).stateWith negated odd q ≠ .error) :
    ∃ plan?, compiler.planWith negated q = .ok plan? := by
  induction q using Query.induction generalizing negated odd with
  | junction kind cs ih =>
    rw [Classifier.stateWith_junction, ne_eq, Classifier.settled_eq_error,
      Combine.apply_eq_error] at hstate
    have hchild : ∀ q ∈ cs, ∃ plan?, compiler.planWith negated q = .ok plan? := by
      intro q hq'
      apply ih q hq' (hq.child hq')
      intro herror
      exact hstate (herror ▸ List.mem_map_of_mem hq')
    rw [planWith, planAll_eq_ok hchild]
    -- which plans the children have does not matter here, only that none raises an error
    generalize (if kind = .or || negated then cs.mapM (compiler.plan? negated)
      else some (cs.filterMap (compiler.plan? negated))) = plans?
    cases plans? with
    | none => exact ⟨none, rfl⟩
    | some plans => exact ⟨Plan.ofJunction? kind plans, rfl⟩
  | not q ih =>
    rw [Classifier.stateWith_not] at hstate
    obtain ⟨plan?, hplan⟩ := ih (hq.child List.mem_cons_self) hstate
    rw [planWith, hplan]
    exact ⟨_, rfl⟩
  | compare leaf =>
    rw [Classifier.stateWith_compare, ne_eq, Classifier.settled_eq_error] at hstate
    rw [planWith]
    exact comparisonPlan_of_ne_error hoptions honly hq hstate
  | call call =>
    rw [planWith]
    exact ⟨none, rfl⟩
  | group q ih =>
    rw [Classifier.stateWith_group] at hstate
    rw [planWith]
    exact ih (hq.child List.mem_cons_self) hstate
  | marked m note q ih =>
    rcases compiler.planWith_marked negated m note q with
      ⟨b, -, hplan⟩ | ⟨reason, -, hplan⟩ | ⟨-, hplan⟩ | ⟨hm, hb, hplan⟩
    · exact ⟨_, hplan⟩
    · exact ⟨_, hplan⟩
    · exact ⟨_, hplan⟩
    · -- what hands on the plan of what it marks hands on its state as well
      have hunit := Classifier.unitState?_of_handsOnPlan (c := .amongAll fields) hm hb
        (hq.unlimited m note q (Query.self_mem_subtrees _))
      rw [Classifier.stateWith_marked, hunit, ne_eq, Classifier.settled_eq_error] at hstate
      rw [hplan]
      exact ih (hq.child List.mem_cons_self) hstate

/-! ## Anchors -/

theorem exists_ofJunction?_and {plans : List (Plan Lookup)} {anchor : Plan Lookup}
    (hmem : anchor ∈ plans) (hanchor : unanchored? false anchor = none) :
    ∃ plan, Plan.ofJunction? .and plans = some plan ∧ unanchored? false plan = none := by
  match plans with
  | [p] =>
    obtain rfl := List.mem_singleton.1 hmem
    exact ⟨anchor, rfl, hanchor⟩
  | p :: q :: ps =>
    have hany : (p :: q :: ps).any (fun r => !r.isNegation) = true := by
      rw [List.any_eq_true]
      exact ⟨anchor, hmem, by rw [not_isNegation_of_unanchored? hanchor]; rfl⟩
    refine ⟨.intersection (p :: q :: ps), rfl, ?_⟩
    rw [unanchored?, hany, Bool.or_true, unanchoredAmong?_eq_none]
    intro r _
    exact unanchored?_true r

theorem exists_ofJunction?_or {plans : List (Plan Lookup)} (hne : plans ≠ [])
    (hanchors : ∀ p ∈ plans, unanchored? false p = none) :
    ∃ plan, Plan.ofJunction? .or plans = some plan ∧ unanchored? false plan = none := by
  match plans with
  | [] => exact absurd rfl hne
  | [p] => exact ⟨p, rfl, hanchors p List.mem_cons_self⟩
  | p :: q :: ps =>
    refine ⟨.union (p :: q :: ps), rfl, ?_⟩
    rw [unanchored?, unanchoredAmong?_eq_none]
    exact hanchors

/-- A conjunction of plans that raise no error is anchored by any one of its children. -/
theorem exists_anchored_conjunction {cs : List Query} {anchor : Query} {plan : Plan Lookup}
    (hok : ∀ q ∈ cs, ∃ plan?, compiler.planWith false q = .ok plan?) (hmem : anchor ∈ cs)
    (hplan : compiler.planWith false anchor = .ok (some plan)) (hanchor : unanchored? false plan = none) :
    ∃ whole, compiler.planWith false (.junction .and cs) = .ok (some whole) ∧
      unanchored? false whole = none := by
  have hfound : plan ∈ cs.filterMap (compiler.plan? false) := by
    rw [List.mem_filterMap]
    refine ⟨anchor, hmem, ?_⟩
    rw [Compiler.plan?, hplan]
    rfl
  obtain ⟨whole, hwhole, hcheck⟩ := exists_ofJunction?_and hfound hanchor
  refine ⟨whole, ?_, hcheck⟩
  rw [planWith_junction (planAll_eq_ok hok), hwhole]

/-- A disjunction is anchored when all of its children are. -/
theorem exists_anchored_disjunction {cs : List Query} (hne : cs ≠ [])
    (hanchors : ∀ q ∈ cs, ∃ plan, compiler.planWith false q = .ok (some plan) ∧
      unanchored? false plan = none) :
    ∃ whole, compiler.planWith false (.junction .or cs) = .ok (some whole) ∧
      unanchored? false whole = none := by
  obtain ⟨plans, hplans, hlength⟩ : ∃ plans, compiler.planAll false true cs = .ok (some plans) ∧
      plans.length = cs.length :=
    exists_planAll fun q hq => (hanchors q hq).imp fun _ h => h.1
  -- every child has a plan, so that there is one at least
  have hnonempty : plans ≠ [] := by
    rintro rfl
    exact hne (List.eq_nil_of_length_eq_zero hlength.symm)
  have hchecks : ∀ p ∈ plans, unanchored? false p = none := by
    intro p hp
    obtain ⟨q, hq, hplan⟩ := exists_of_mem_planAll hplans p hp
    obtain ⟨plan, hsame, hcheck⟩ := hanchors q hq
    rw [hplan] at hsame
    cases hsame
    exact hcheck
  obtain ⟨whole, hwhole, hcheck⟩ := exists_ofJunction?_or hnonempty hchecks
  refine ⟨whole, ?_, hcheck⟩
  rw [planWith_junction hplans, hwhole]

/-- A comparison that finds its records is compiled to a look-up. -/
theorem exists_comparisonPlan_of_finds {leaf : Comparison}
    (hoptions : compiler.options.Follows fields)
    (hq : (Query.compare leaf).Plannable fields compiler.options.properties)
    (hstate : ((Classifier.amongAll fields).leafState leaf).Finds) :
    ∃ l, compiler.comparisonPlan leaf = .ok (some (.leaf l)) := by
  have hself := Query.self_mem_subtrees (.compare leaf)
  obtain ⟨hany, hno⟩ := hq.named leaf hself
  obtain ⟨hop, hindexed, hnull⟩ := Classifier.of_finds_leafState hany hno hstate
  obtain ⟨text, htext⟩ := Literal.exists_text? hnull
  have hlooked : compiler.options.isIndexed leaf.field = true := by
    simp [PlanOptions.isIndexed, hoptions.indexed, hindexed]
  rw [comparisonPlan, if_neg (by simp [hany, hno]), htext]
  simp only [hlooked, if_true]
  rcases hop with hop | hop
  · rw [hop]
    exact ⟨_, rfl⟩
  · obtain ⟨pattern, hpattern⟩ :=
      Option.isSome_iff_exists.1 (hq.patterns leaf hself (by rw [hop]; rfl) hindexed text htext)
    rw [hop, matchPlan, regexLookup, hpattern]
    exact ⟨_, by simp [hoptions.fullScan, Except.map, lookup]; rfl⟩

/-- A range that finds its records is compiled to a look-up. -/
theorem exists_rangePlan {b : Bounds} (hoptions : compiler.options.Follows fields)
    (hb : b.WellFormed) (hindexed : fields.indexed.contains b.field = true) :
    ∃ l, compiler.rangePlan b = some (.leaf l) := by
  have hlooked : compiler.options.isIndexed b.field = true := by
    simp [PlanOptions.isIndexed, hoptions.indexed, hindexed]
  obtain ⟨lower, hlower⟩ := Literal.exists_text? hb.lower_text
  obtain ⟨upper, hupper⟩ := Literal.exists_text? hb.upper_text
  rw [rangePlan, if_pos hlooked, hlower, hupper]
  exact ⟨_, rfl⟩

/-- A junction that finds its records is anchored by the children that find theirs. -/
theorem exists_anchored_junction {kind : Junction} {cs : List Query}
    (hoptions : compiler.options.Follows fields)
    (honly : ∀ field, fields.indexOnly.contains field = true → fields.nonEvent.contains field = true)
    (hq : (Query.junction kind cs).Plannable fields compiler.options.properties)
    (hchild : ∀ r ∈ cs, ((Classifier.amongAll fields).stateWith false false r).Finds →
      ∃ plan, compiler.planWith false r = .ok (some plan) ∧ unanchored? false plan = none)
    (hstate : ((Combine.ofJunction kind false).apply
      (cs.map ((Classifier.amongAll fields).stateWith false false))).Finds) :
    ∃ whole, compiler.planWith false (.junction kind cs) = .ok (some whole) ∧
      unanchored? false whole = none := by
  have hne : cs ≠ [] := by
    rintro rfl
    exact hq.filled kind (Query.self_mem_subtrees _)
  cases kind with
  | and =>
    -- one child finds the records; no other raises an error
    obtain ⟨s, hs, hfinds⟩ := Combine.exists_finds_of_apply_allOrSome (by simpa using hne) hstate
    obtain ⟨anchor, hmem, rfl⟩ := List.mem_map.1 hs
    obtain ⟨plan, hplan, hanchor⟩ := hchild anchor hmem hfinds
    have hok : ∀ r ∈ cs, ∃ plan?, compiler.planWith false r = .ok plan? := by
      intro r hr
      apply exists_planWith_of_ne_error hoptions honly (hq.child hr)
      intro herror
      apply hstate.ne_error
      rw [Combine.apply_eq_error, ← herror]
      exact List.mem_map_of_mem hr
    exact exists_anchored_conjunction hok hmem hplan hanchor
  | or =>
    apply exists_anchored_disjunction hne
    intro r hr
    exact hchild r hr (Combine.finds_of_apply_allOrNone hstate _ (List.mem_map_of_mem hr))

/-- An anchored plan is that of a negation of its negation. -/
theorem planWith_not_of_anchored {q : Query} {odd : Bool} {plan : Plan Lookup}
    (hplan : compiler.planWith (!odd) q = .ok (some (if !odd then plan.negate else plan)))
    (hcheck : unanchored? false plan = none) :
    compiler.planWith odd (.not q) = .ok (some (if odd then plan.negate else plan)) := by
  rw [planWith_not hplan]
  cases odd with
  | true => rfl
  | false =>
    -- the plan is no negation, so that negating it twice gives it back
    have hpositive := not_isNegation_of_unanchored? hcheck
    cases plan with
    | negation p => cases hpositive
    | intersection cs | union cs | leaf l | dropped reason => rfl

/-- A marked query that finds its records is a range, is dropped, or is anchored by what it
    marks. -/
theorem exists_anchored_marked {m : Marker} {note : Option DropNote} {q : Query}
    (hoptions : compiler.options.Follows fields)
    (hq : (Query.marked m note q).Plannable fields compiler.options.properties)
    (hchild : ((Classifier.amongAll fields).stateWith false false q).Finds →
      ∃ plan, compiler.planWith false q = .ok (some plan) ∧ unanchored? false plan = none)
    (hstate : (((Classifier.amongAll fields).unitState? m (.marked m note q) q).getD
      ((Classifier.amongAll fields).stateWith false false q)).Finds) :
    ∃ plan, compiler.planWith false (.marked m note q) = .ok (some plan) ∧
      unanchored? false plan = none := by
  rcases compiler.planWith_marked false m note q with
    ⟨b, hb, hplan⟩ | ⟨reason, -, hplan⟩ | ⟨hm, -⟩ | ⟨hm, hb, hplan⟩
  · obtain rfl := Query.eq_bounded_of_bounds? hb
    have hno := (hq.named b.lower (Query.mem_subtrees_of_bounds? hb).1).2
    rw [Classifier.unitState?_bounded _ hb, Option.getD_some] at hstate
    have hindexed := Classifier.isIndexed_of_finds hno hstate
    obtain ⟨l, hrange⟩ := exists_rangePlan hoptions (Query.wellFormed_of_bounds? hb) hindexed
    exact ⟨.leaf l, by rw [hplan, hrange], rfl⟩
  · exact ⟨.dropped reason, hplan, rfl⟩
  · -- what is kept away from the index finds nothing there
    cases m with
    | delayed | exceededTerm | indexHole =>
      exact absurd (show ExecState.Finds .nonExecutable from hstate) (by decide)
    | evaluationOnly => exact absurd hstate (Classifier.not_finds_byRecord q.fields)
    | bounded | exceededValue | exceededOr | list | term | lenient | strict | drop => cases hm
  · have hunlimited := hq.unlimited m note q (Query.self_mem_subtrees _)
    rw [Classifier.unitState?_of_handsOnPlan hm hb hunlimited] at hstate
    rw [hplan]
    exact hchild hstate

/-- What finds its records, or is dropped, has a plan with an anchor of its own. Right
    beneath an odd number of negations such a query is a negation, and its plan is that
    of what it negates. -/
theorem exists_anchored_planWith {q : Query} {odd : Bool}
    (hoptions : compiler.options.Follows fields)
    (honly : ∀ field, fields.indexOnly.contains field = true → fields.nonEvent.contains field = true)
    (hq : q.Plannable fields compiler.options.properties) (hkept : odd = true → ¬ q.DropsPart)
    (hstate : ((Classifier.amongAll fields).stateWith odd odd q).Finds) :
    ∃ plan, compiler.planWith odd q = .ok (some (if odd then plan.negate else plan)) ∧
      unanchored? false plan = none := by
  induction q using Query.induction generalizing odd with
  | junction kind cs ih =>
    obtain rfl := Classifier.odd_eq_false hq hkept (Classifier.stateWith_junction ..) hstate
    rw [Classifier.stateWith_junction, Classifier.settled_false] at hstate
    apply exists_anchored_junction hoptions honly hq _ hstate
    intro r hr hfinds
    exact ih r hr (hq.child hr) (by simp) hfinds
  | not q ih =>
    rw [Classifier.stateWith_not] at hstate
    -- what is negated has the other parity, and drops nothing
    have hchild : (!odd) = true → ¬ q.DropsPart := by
      rintro - ⟨note, inner, hdrop⟩
      exact hq.kept q (Query.self_mem_subtrees _) note inner hdrop
    obtain ⟨plan, hplan, hcheck⟩ := ih (hq.child List.mem_cons_self) hchild hstate
    exact ⟨plan, planWith_not_of_anchored hplan hcheck, hcheck⟩
  | compare leaf =>
    obtain rfl := Classifier.odd_eq_false hq hkept (Classifier.stateWith_compare ..) hstate
    rw [Classifier.stateWith_compare, Classifier.settled_false] at hstate
    obtain ⟨l, hplan⟩ := exists_comparisonPlan_of_finds hoptions hq hstate
    rw [planWith]
    exact ⟨.leaf l, hplan, rfl⟩
  | call call =>
    obtain rfl := Classifier.odd_eq_false hq hkept (Classifier.stateWith_call ..) hstate
    rw [Classifier.stateWith_call, Classifier.settled_false] at hstate
    exact absurd hstate (by decide)
  | group q ih =>
    rw [Classifier.stateWith_group] at hstate
    rw [planWith]
    have hchild : odd = true → ¬ q.DropsPart := fun hodd hdrops =>
      hkept hodd (hdrops.of_child List.mem_cons_self)
    exact ih (hq.child List.mem_cons_self) hchild hstate
  | marked m note q ih =>
    obtain rfl := Classifier.odd_eq_false hq hkept (Classifier.stateWith_marked ..) hstate
    rw [Classifier.stateWith_marked, Classifier.settled_false] at hstate
    exact exists_anchored_marked hoptions hq (ih (hq.child List.mem_cons_self) (by simp)) hstate

end Compiler

/-! ## Compiled queries -/

/-- A field whose values are in the index alone is absent from the records. -/
theorem Classifier.nonEvent_of_indexOnly (catalog : Catalog) (config : Config) (mode : ExecMode)
    {field : String} (h : (ofCatalog catalog config mode).fields.indexOnly.contains field = true) :
    (ofCatalog catalog config mode).fields.nonEvent.contains field = true := by
  simp only [ofCatalog, FieldSets.withIndexOnly, FieldSets.resolve, SortedSet.contains_iff,
    SortedSet.mem_union] at h ⊢
  rcases h with h | h
  · exact .inl (.inr h)
  · exact .inr h

/-- A query that the index of all records answers has a plan. -/
theorem exists_compile_of_executable {catalog : Catalog} {config : Config} {q : Query}
    {options : PlanOptions} (record : RecordId)
    (hoptions : options.Follows (Classifier.ofCatalog catalog config .globalIndex).fields)
    (hq : q.Plannable (Classifier.ofCatalog catalog config .globalIndex).fields options.properties)
    (hstate : ((Classifier.ofCatalog catalog config .globalIndex).classify q).state = .executable) :
    ∃ plan, q.compile record options = .ok plan := by
  have honly : ∀ field,
      (Classifier.ofCatalog catalog config .globalIndex).fields.indexOnly.contains field = true →
      (Classifier.ofCatalog catalog config .globalIndex).fields.nonEvent.contains field = true :=
    fun _ h => Classifier.nonEvent_of_indexOnly catalog config .globalIndex h
  obtain ⟨plan, hplan, hanchor⟩ : ∃ plan,
      Compiler.planWith ⟨record, options⟩ false q = .ok (some plan) ∧
        Compiler.unanchored? false plan = none :=
    Compiler.exists_anchored_planWith hoptions honly hq (by simp) (.inl hstate)
  have hpositive := Compiler.not_isNegation_of_unanchored? hanchor
  refine ⟨plan, ?_⟩
  simp [Query.compile, hplan, hpositive, hanchor, bind, Except.bind, pure, Except.pure]

/-! ### A query with clauses that the index does not answer -/

/-- `A` and `B` have index entries, and `B` has its values there alone. -/
def partsCatalog : Catalog :=
  { fields := .ofList [("A", { indexed := true }), ("B", { indexed := true, indexOnly := true }), ("C", {})] }

/-- `(A == 'a' || !!(B =~ 'b+') || (A == '' dropped)) && A != 'c' && (C > '3' delayed)` -/
def partsQuery : Query :=
  .junction .and
    [.junction .or
        [.compareWith .eq "A" (.string "a"), .not (.not (.compareWith .regex "B" (.string "b+"))),
          .marked .drop (some ⟨"empty", "A == ''"⟩) (.compareWith .eq "A" (.string ""))],
      .compareWith .ne "A" (.string "c"), .mark .delayed (.compareWith .gt "C" (.string "3"))]

def partsOptions : PlanOptions :=
  { indexedFields := some (.ofList ["A", "B"])
    indexOnlyFields := .ofList ["B"] }

theorem plannable_partsQuery :
    partsQuery.Plannable (Classifier.ofCatalog partsCatalog {} .globalIndex).fields
      partsOptions.properties where
  filled kind := by cases kind <;> decide
  named leaf h := by
    have hfields : ∀ q ∈ partsQuery.subtrees, ∀ leaf ∈ q.comparison?,
        leaf.field ≠ anyField ∧ leaf.field ≠ noField := by decide
    exact hfields _ h leaf rfl
  unlimited m note child h := by
    simp only [partsQuery, Query.compareWith, Query.mark, Query.subtrees, Query.subtreesOfAll] at h
    simp at h
    rcases h with ⟨rfl, -⟩ | ⟨rfl, -⟩ <;> decide
  kept child h note inner := by
    simp only [partsQuery, Query.compareWith, Query.mark, Query.subtrees, Query.subtreesOfAll] at h
    simp at h
    rcases h with rfl | rfl <;> simp [Query.subtrees]
  patterns leaf h := by
    have hpatterns : ∀ q ∈ partsQuery.subtrees, ∀ leaf ∈ q.comparison?, leaf.op.isRegex = true →
        ∀ text ∈ leaf.literal.text?,
          (Pattern.ofText? partsOptions.properties text).isSome = true := by decide
    exact fun hop _ => hpatterns _ h leaf rfl hop

theorem exists_compile_partsQuery :
    partsOptions.Follows (Classifier.ofCatalog partsCatalog {} .globalIndex).fields ∧
      partsQuery.Plannable (Classifier.ofCatalog partsCatalog {} .globalIndex).fields
        partsOptions.properties ∧
      ((Classifier.ofCatalog partsCatalog {} .globalIndex).classify partsQuery).state = .executable ∧
      ∃ plan, partsQuery.compile default partsOptions = .ok plan := by
  have hoptions : partsOptions.Follows (Classifier.ofCatalog partsCatalog {} .globalIndex).fields :=
    ⟨by decide, by decide, rfl⟩
  have hstate : ((Classifier.ofCatalog partsCatalog {} .globalIndex).classify partsQuery).state =
      .executable := by rfl
  exact ⟨hoptions, plannable_partsQuery, hstate,
    exists_compile_of_executable default hoptions plannable_partsQuery hstate⟩

end IndexQuery
