import IndexQuery.Expansion.Basic
import IndexQuery.Proofs.Expansion.Clause

/-! # Expansion, node by node

    What the expansion of a query does at each kind of node.

    * `Expander.expandClause_cases`: a clause stays, gets a marker, or makes room for its
      forms.
    * `Expander.expandWith_junction`: of the children of a junction those stay that
      are covered, and the others are expanded.
    * `Expander.mem_covered`: what is covered is a form of a sibling that has all of
      its forms among the siblings.
    * `Expander.expandWith_induction`: all that expansion makes of a query.
-/

namespace IndexQuery

/-- What the expansion of a query consults. -/
def Query.expander (q : Query) (catalog : Catalog) (config : Config) : Expander :=
  ⟨catalog, config, distinct (q.fields ++ config.termFrequencyFields.toList)⟩

namespace Expander

/-! ## Results without their notes -/

/-- A clause by its forms. -/
def expandClause (e : Expander) (p : Policy) (q : Query) (clause : Clause) : Query :=
  (e.clauseExpansion p q clause).value

/-- What the siblings say that stay as they are. -/
def covered (e : Expander) (siblings : List Clause) : Std.HashSet Clause.Content :=
  (e.coverage siblings).value

/-- The form of an argument. -/
def expandText (normalizers : List Normalizer) (text : String) : String :=
  (textExpansion normalizers text).value

/-- An argument by its form. -/
def expandArgument (normalizers : List Normalizer) (arg : Argument) : Argument :=
  (argumentExpansion normalizers arg).value

/-- A call with its literals by their forms. -/
def expandCall (e : Expander) (c : Call) : Call := (e.callExpansion c).value

/-- A query with its clauses by their forms. -/
def expandWith (e : Expander) (p : Policy) (q : Query) : Query := (e.expansion p q).value

variable {e : Expander} {p : Policy}

theorem variants?_eq (clause : Clause) :
    e.variants? clause = clause.variants? (e.catalog.normalizersFor clause.field) :=
  rfl

theorem expandClause_eq (q : Query) (clause : Clause) :
    e.expandClause p q clause = e.replaced p q clause (e.variants? clause) :=
  rfl

@[simp] theorem expandWith_not (c : Query) : e.expandWith p (.not c) = .not (e.expandWith p c) := by
  simp [expandWith, expansion]

@[simp] theorem expandWith_group (c : Query) :
    e.expandWith p (.group c) = .group (e.expandWith p c) := by
  simp [expandWith, expansion]

@[simp] theorem expandWith_call (c : Call) :
    e.expandWith p (.call c) = .call (e.expandCall c) := by
  simp [expandWith, expansion, expandCall]

/-! ## Clauses -/

theorem clause?_eq_some {q : Query} {clause : Clause} :
    e.clause? q = some clause ↔
      Clause.of? q = some clause ∧ e.catalog.normalizersFor clause.field ≠ [] := by
  simp [clause?, Option.filter_eq_some_iff]

/-- A clause with normalizers is well-formed. -/
theorem wellFormed_of_clause? {q : Query} {clause : Clause} (h : e.clause? q = some clause) :
    clause.WellFormed :=
  Clause.wellFormed_of? (clause?_eq_some.1 h).1

/-- A clause is a comparison or marked as a range. -/
theorem eq_of_clause? {q : Query} {clause : Clause} (h : e.clause? q = some clause) :
    (∃ c, q = .compare c ∧ clause = .leaf c) ∨
      ∃ note child b, q = .marked .bounded note child ∧ clause = .range b := by
  obtain ⟨c, rfl, -, rfl⟩ | ⟨b, hb, rfl⟩ := Clause.of?_eq_some (clause?_eq_some.1 h).1
  · exact .inl ⟨c, rfl, rfl⟩
  · obtain ⟨note, child, -, -, -, -, rfl, -⟩ := Query.eq_marked_of_bounds? hb
    exact .inr ⟨note, child, b, rfl, rfl⟩

theorem clause?_marked {m : Marker} (hm : m ≠ .bounded) (note : Option DropNote) (c : Query) :
    e.clause? (.marked m note c) = none := by
  cases hclause : e.clause? (.marked m note c) with
  | none => rfl
  | some clause =>
    obtain ⟨_, hq, -⟩ | ⟨_, _, _, hq, -⟩ := eq_of_clause? hclause
    · cases hq
    · cases hq
      exact absurd rfl hm

/-- The markers beneath which nothing is expanded. -/
def isSealed : Marker → Bool
  | .exceededTerm | .exceededValue | .drop => true
  | _ => false

theorem expansion_of_clause? {q : Query} {clause : Clause} (h : e.clause? q = some clause) :
    e.expansion p q = e.clauseExpansion p q clause := by
  obtain ⟨c, rfl, -⟩ | ⟨note, child, b, rfl, -⟩ := eq_of_clause? h
  · simp only [expansion, h]
  · simp only [expansion, h]

theorem expandWith_of_clause? {q : Query} {clause : Clause} (h : e.clause? q = some clause) :
    e.expandWith p q = e.expandClause p q clause :=
  congrArg Noted.value (expansion_of_clause? h)

/-- What becomes of a clause: it stays, perhaps with a marker around it, or its forms take its
    place, one alone or several joined. -/
theorem expandClause_cases {motive : Query → Prop} {q : Query} {clause : Clause}
    (self : motive q) (marked : motive (.mark .evaluationOnly q))
    (dropped : ∀ reason, motive (.dropped reason q))
    (form : ∀ forms, e.variants? clause = some forms → ∀ values ∈ forms,
      motive (clause.withValues values).toQuery)
    (joined : ∀ forms, e.variants? clause = some forms → motive (.joinDistinct clause.junction
      (forms.map fun values => (clause.withValues values).toQuery))) :
    motive (e.expandClause p q clause) := by
  rw [expandClause_eq]
  unfold replaced
  split
  · unfold refused
    split
    · exact self
    · split
      · exact marked
      · split
        · exact self
        · exact dropped _
  · rename_i values hforms
    split
    · exact self
    · exact form _ hforms values List.mem_cons_self
  · rename_i forms _ hforms
    exact joined forms hforms

/-- A comparison that is no clause stays. -/
theorem expansion_compare {c : Comparison} (h : e.clause? (.compare c) = none) :
    e.expansion p (.compare c) = pure (.compare c) := by
  simp only [expansion, h]

theorem expandWith_compare {c : Comparison} (h : e.clause? (.compare c) = none) :
    e.expandWith p (.compare c) = .compare c :=
  congrArg Noted.value (expansion_compare h)

theorem expansion_sealed {m : Marker} (hm : isSealed m = true) (note : Option DropNote)
    (c : Query) : e.expansion p (.marked m note c) = pure (.marked m note c) := by
  cases m with
  | exceededTerm | exceededValue | drop => simp only [expansion]
  | _ => cases hm

theorem expandWith_sealed {m : Marker} (hm : isSealed m = true) (note : Option DropNote)
    (c : Query) : e.expandWith p (.marked m note c) = .marked m note c :=
  congrArg Noted.value (expansion_sealed hm note c)

theorem expansion_marked {m : Marker} (hm : isSealed m = false) {note : Option DropNote}
    {c : Query} (h : e.clause? (.marked m note c) = none) :
    e.expansion p (.marked m note c) = .marked m note <$> e.expansion (p.beneath m) c := by
  cases m with
  | exceededTerm | exceededValue | drop => cases hm
  | _ => simp only [expansion, h]

theorem expandWith_marked {m : Marker} (hm : isSealed m = false) {note : Option DropNote}
    {c : Query} (h : e.clause? (.marked m note c) = none) :
    e.expandWith p (.marked m note c) = .marked m note (e.expandWith (p.beneath m) c) :=
  congrArg Noted.value (expansion_marked hm h)

/-! ## Siblings -/

theorem mem_clausesOf {kind : Junction} {cs : List Query} {clause : Clause} :
    clause ∈ e.clausesOf kind cs ↔
      ∃ c ∈ cs, e.clause? c = some clause ∧ clause.junction = kind := by
  simp [clausesOf, Option.filter_eq_some_iff]

/-- What is covered is a form of a sibling all of whose forms are siblings. -/
theorem mem_covered {siblings : List Clause} {content : Clause.Content} :
    (e.covered siblings).contains content = true ↔
      ∃ s ∈ siblings, ∃ forms, e.variants? s = some forms ∧
        (∀ values ∈ forms, ∃ t ∈ siblings, t.content = (s.key, values)) ∧
        ∃ values ∈ forms, (s.key, values) = content := by
  simp only [covered, coverage, Noted.value_bind, Noted.value_pure, Noted.value_each]
  rw [Std.HashSet.contains_ofList, List.contains_iff_mem, ← List.flatMap_def, List.mem_flatMap]
  -- a sibling without forms, or with a form that is missing, covers nothing
  constructor
  · rintro ⟨s, hs, hcontent⟩
    simp only [coverageBy, Noted.value_bind, Noted.value_pure] at hcontent
    split at hcontent
    · rename_i hall
      cases hforms : (e.variants s).value with
      | none => simp [hforms] at hcontent
      | some forms =>
        refine ⟨s, hs, forms, hforms, ?_, ?_⟩
        · simpa [hforms, Std.HashSet.contains_ofList] using hall
        · simpa [hforms] using hcontent
    · simp at hcontent
  · rintro ⟨s, hs, forms, hforms, hall, hcontent⟩
    have hforms : (e.variants s).value = some forms := hforms
    refine ⟨s, hs, ?_⟩
    simp only [coverageBy, Noted.value_bind, Noted.value_pure]
    rw [if_pos (by simpa [hforms, Std.HashSet.contains_ofList] using hall)]
    simpa [hforms] using hcontent

/-- Whether a child of a junction stays, since its siblings are all the forms of a clause
    of which it is one. -/
def isCovered (e : Expander) (kind : Junction) (siblings : List Query) (c : Query) : Bool :=
  match (e.clause? c).filter (·.junction = kind) with
  | some clause => (e.covered (e.clausesOf kind siblings)).contains clause.content
  | none => false

theorem isCovered_iff {kind : Junction} {siblings : List Query} {c : Query} :
    e.isCovered kind siblings c = true ↔
      ∃ clause, e.clause? c = some clause ∧ clause.junction = kind ∧
        (e.covered (e.clausesOf kind siblings)).contains clause.content = true := by
  unfold isCovered
  split
  · rename_i clause hclause
    obtain ⟨hclause, hkind⟩ := Option.filter_eq_some_iff.1 hclause
    simp only [decide_eq_true_eq] at hkind
    simp [hclause, hkind]
  · rename_i hnone
    rw [Option.filter_eq_none_iff] at hnone
    constructor
    · intro h
      cases h
    · rintro ⟨clause, hclause, hkind, -⟩
      exact absurd (by simpa using hkind) (hnone clause hclause)

/-- Of the children of a junction those stay that are covered. -/
theorem value_expansions (kind : Junction) (siblings cs : List Query) :
    (e.expansions p kind (e.covered (e.clausesOf kind siblings)) cs).value =
      cs.map fun c => if e.isCovered kind siblings c then c else e.expandWith p c := by
  induction cs with
  | nil => rw [expansions, List.map_nil, Noted.value_pure]
  | cons c cs ih =>
    simp only [expansions, Noted.value_bind, Noted.value_pure, ih, List.map_cons]
    congr 1
    rw [isCovered]
    -- only a child that could be covered is looked at as a clause
    cases hclause : (e.clause? c).filter (·.junction = kind) with
    | none => rfl
    | some clause =>
      rw [expandWith_of_clause? (Option.filter_eq_some_iff.1 hclause).1]
      exact apply_ite Noted.value _ _ _

theorem expandWith_junction (kind : Junction) (cs : List Query) :
    e.expandWith p (.junction kind cs) =
      .joinDistinct kind
        (cs.map fun c => if e.isCovered kind cs c then c else e.expandWith p c) := by
  rw [← value_expansions, covered]
  simp [expandWith, expansion]

/-! ## Trees -/

/-- What holds between a query and what each of the rules makes of it holds between any query
    and its expansion. The policy changes beneath markers. -/
theorem expandWith_induction {motive : Policy → Query → Query → Prop}
    (junction : ∀ p kind cs, (∀ c ∈ cs, motive p c (e.expandWith p c)) →
      motive p (.junction kind cs) (.joinDistinct kind
        (cs.map fun c => if e.isCovered kind cs c then c else e.expandWith p c)))
    (not : ∀ p c, motive p c (e.expandWith p c) → motive p (.not c) (.not (e.expandWith p c)))
    (group : ∀ p c, motive p c (e.expandWith p c) →
      motive p (.group c) (.group (e.expandWith p c)))
    (clause : ∀ p q clause, e.clause? q = some clause → motive p q (e.expandClause p q clause))
    (compare : ∀ p leaf, e.clause? (.compare leaf) = none →
      motive p (.compare leaf) (.compare leaf))
    (call : ∀ p call, motive p (.call call) (.call (e.expandCall call)))
    (closed : ∀ p m note c, isSealed m = true → motive p (.marked m note c) (.marked m note c))
    (marked : ∀ p m note c, isSealed m = false → e.clause? (.marked m note c) = none →
      motive (p.beneath m) c (e.expandWith (p.beneath m) c) →
      motive p (.marked m note c) (.marked m note (e.expandWith (p.beneath m) c)))
    (p : Policy) (q : Query) : motive p q (e.expandWith p q) := by
  induction q using Query.induction generalizing p with
  | junction kind cs ih =>
    rw [expandWith_junction]
    exact junction p kind cs fun c hc => ih c hc p
  | not c ih =>
    rw [expandWith_not]
    exact not p c (ih p)
  | group c ih =>
    rw [expandWith_group]
    exact group p c (ih p)
  | compare leaf =>
    cases hclause : e.clause? (.compare leaf) with
    | some found =>
      rw [expandWith_of_clause? hclause]
      exact clause p _ found hclause
    | none =>
      rw [expandWith_compare hclause]
      exact compare p leaf hclause
  | call c =>
    rw [expandWith_call]
    exact call p c
  | marked m note c ih =>
    cases hsealed : isSealed m with
    | true =>
      rw [expandWith_sealed hsealed]
      exact closed p m note c hsealed
    | false =>
      cases hclause : e.clause? (.marked m note c) with
      | some found =>
        rw [expandWith_of_clause? hclause]
        exact clause p _ found hclause
      | none =>
        rw [expandWith_marked hsealed hclause]
        exact marked p m note c hsealed hclause (ih (p.beneath m))

/-! ## Calls -/

/-- What normalizers make of a text. -/
def results (normalizers : List Normalizer) (text : String) : List String :=
  (normalizers.map fun n => n.normalize text).filterMap Except.toOption

theorem mem_results {normalizers : List Normalizer} {text form : String} :
    form ∈ results normalizers text ↔ ∃ n ∈ normalizers, n.normalize text = .ok form := by
  rw [results, List.filterMap_map, List.mem_filterMap]
  constructor
  · rintro ⟨n, hn, hform⟩
    cases hresult : n.normalize text with
    | error error => simp [hresult, Except.toOption] at hform
    | ok form' =>
      simp only [Function.comp_apply, hresult, Except.toOption, Option.some.injEq] at hform
      exact ⟨n, hn, by rw [hresult, hform]⟩
  · rintro ⟨n, hn, hform⟩
    exact ⟨n, hn, by rw [Function.comp_apply, hform]; rfl⟩

theorem expandText_eq (normalizers : List Normalizer) (text : String) :
    expandText normalizers text = textOf text (results normalizers text) :=
  rfl

/-- The form of an argument is what a normalizer makes of it, or its text if there is
    none that accepts it. -/
theorem expandText_cases (normalizers : List Normalizer) (text : String) :
    (∃ n ∈ normalizers, n.normalize text = .ok (expandText normalizers text)) ∨
      expandText normalizers text = text ∧ ∀ n ∈ normalizers, ∀ w, n.normalize text ≠ .ok w := by
  rw [expandText_eq, textOf]
  split
  · rename_i hcontains
    exact .inl (mem_results.1 (List.contains_iff_mem.1 hcontains))
  · -- the text is not among the results, so the first of them takes its place
    cases hresults : results normalizers text with
    | nil =>
      refine .inr ⟨rfl, ?_⟩
      intro n hn w hw
      have hmem := mem_results.2 ⟨n, hn, hw⟩
      rw [hresults] at hmem
      cases hmem
    | cons form rest =>
      have hmem : form ∈ results normalizers text := by
        rw [hresults]
        exact List.mem_cons_self
      exact .inl (mem_results.1 hmem)

/-- An argument stays if a normalizer leaves it as it is, or if all refuse it. -/
theorem expandText_eq_self {normalizers : List Normalizer} {text : String}
    (h : (∃ n ∈ normalizers, n.normalize text = .ok text) ∨
      ∀ n ∈ normalizers, ∀ w, n.normalize text ≠ .ok w) : expandText normalizers text = text := by
  rw [expandText_eq, textOf]
  rcases h with hfixed | hrefused
  · rw [if_pos (List.contains_iff_mem.2 (mem_results.2 hfixed))]
  · have hnone : results normalizers text = [] := by
      rw [List.eq_nil_iff_forall_not_mem]
      intro form hform
      obtain ⟨n, hn, hw⟩ := mem_results.1 hform
      exact hrefused n hn form hw
    rw [hnone]
    rfl

@[simp] theorem expandArgument_literal (normalizers : List Normalizer) (l : Literal) :
    expandArgument normalizers (.literal l) =
      match l.text? with
      | some text =>
        let form := expandText normalizers text
        .literal (if form = text then l else .string form)
      | none => .literal l := by
  simp only [expandArgument, argumentExpansion]
  cases l.text? <;> rfl

/-- Calls of the family `filter` stay; of others the arguments are brought into a form. -/
theorem expandCall_eq (c : Call) : e.expandCall c =
    if c.family = "filter" then c
    else { c with args := c.args.map (expandArgument (e.normalizersOf
      (if c.fields.isEmpty then e.queryFields else c.fields))) } := by
  rw [expandCall, callExpansion]
  split <;> rfl

end Expander

end IndexQuery
