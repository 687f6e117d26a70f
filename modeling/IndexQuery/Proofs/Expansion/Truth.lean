import IndexQuery.Proofs.Expansion.Form

/-! # Expansion keeps what a query means

    Where normalizing a literal does not change what is true, an expanded query is as
    true as the query without the clauses that no normalizer accepts.

    * `Valuation.Invariant`: normalizing does not change what is true.
    * `Expander.pruned`: the query without its excluded clauses.
    * `Expander.truth_expandWith`: the step at each node, and from it every tree.
    * `Query.truth_expand`: an expanded query is as true as the pruned one.

    A clause of a conjunction that no normalizer accepts is not excluded when it is
    what a normalizer makes of a sibling. That takes a normalizer which refuses what
    it has written, as that of numbers does with digits of other scripts.
-/

namespace IndexQuery

/-! ## What normalizers leave alone -/

/-- An argument, or what a normalizer of some field makes of it. -/
inductive Argument.Normalized (catalog : Catalog) : Argument → Argument → Prop
  | same (arg : Argument) : Normalized catalog arg arg
  | literal {l : Literal} {text value field : String} {n : Normalizer} :
    l.text? = some text → n ∈ catalog.normalizersFor field → n.normalize text = .ok value →
      Normalized catalog (.literal l) (.literal (.string value))

/-- Normalizing does not change what is true. -/
structure Valuation.Invariant (v : Valuation) (catalog : Catalog) : Prop where
  /-- Of a literal its text counts, not the way it is written. -/
  text : ∀ c : Comparison, c.literal.isNull = false →
    v.compare (c.withValue c.literal.text) = v.compare c
  /-- The normalizers of a field do not change what is true of it. -/
  normalized : ∀ (c : Comparison) (n : Normalizer) (value : String), c.literal.isNull = false →
    n ∈ catalog.normalizersFor c.field →
    (if c.op.isRegex then n.normalizeRegex c.literal.text else n.normalize c.literal.text)
      = .ok value →
    v.compare (c.withValue value) = v.compare c
  /-- Nor do normalizers change what a call answers. -/
  call : ∀ (c : Call) (form : Argument → Argument),
    (∀ arg ∈ c.args, arg.Normalized catalog (form arg)) →
    v.call { c with args := c.args.map form } = v.call c

/-! ## Clauses -/

namespace Clause

variable {v : Valuation} {catalog : Catalog} {clause : Clause} {values : List String}

/-- A clause with its own values is as true as before. -/
theorem truth_withValues_self (hv : v.Invariant catalog) (hwf : clause.WellFormed) :
    v.truth (clause.withValues clause.values).toQuery = v.truth clause.toQuery := by
  cases clause with
  | leaf c =>
    show v.truth (.compare (c.withValue c.literal.text)) = v.truth (.compare c)
    rw [Valuation.truth_compare, Valuation.truth_compare, hv.text c hwf]
  | range b =>
    have hlower := hv.text b.lower hwf.lower_text
    have hupper := hv.text b.upper hwf.upper_text
    simp [withValues, values, toQuery, Query.range, Query.mark, Valuation.truth_marked, hlower,
      hupper]

/-- A clause is as true as what a normalizer of its field makes of it. -/
theorem truth_withValues_of_normalized? (hv : v.Invariant catalog) (hwf : clause.WellFormed)
    {n : Normalizer} (hn : n ∈ catalog.normalizersFor clause.field)
    (h : clause.normalized? n = some values) :
    v.truth (clause.withValues values).toQuery = v.truth clause.toQuery := by
  cases clause with
  | leaf c =>
    obtain ⟨value, hvalue, rfl⟩ := normalized?_leaf.1 h
    have hsame := hv.normalized c n value hwf hn hvalue
    simp [withValues, toQuery, hsame]
  | range b =>
    obtain ⟨lo, hi, hlo, hhi, rfl⟩ := normalized?_range.1 h
    -- the bounds of a range are on one field, and their operators take no patterns
    have hnolower := CompareOp.isRegex_of_isLowerBound hwf.lower
    have hnoupper := CompareOp.isRegex_of_isUpperBound hwf.upper
    have hlower := hv.normalized b.lower n lo hwf.lower_text hn
      (by simpa [hnolower] using hlo)
    have hupper := hv.normalized b.upper n hi hwf.upper_text (by rw [hwf.field]; exact hn)
      (by simpa [hnoupper] using hhi)
    simp [withValues, toQuery, Query.range, Query.mark, Valuation.truth_marked, hlower, hupper]

/-- A clause is as true as each of its forms. -/
theorem truth_withValues (hv : v.Invariant catalog) (hwf : clause.WellFormed)
    {forms : List (List String)} (hforms : clause.Forms (catalog.normalizersFor clause.field) forms)
    (h : values ∈ forms) : v.truth (clause.withValues values).toQuery = v.truth clause.toQuery := by
  rcases hforms.sound values h with rfl | ⟨n, hn, hvalues⟩
  · exact truth_withValues_self hv hwf
  · exact truth_withValues_of_normalized? hv hwf hn hvalues

/-- A clause that says what a form of another one says is as true as this one. -/
theorem truth_eq_of_content {other : Clause} (hv : v.Invariant catalog) (hwf : clause.WellFormed)
    (hother : other.WellFormed) {forms : List (List String)}
    (hforms : other.Forms (catalog.normalizersFor other.field) forms) (h : values ∈ forms)
    (hcontent : (other.key, values) = clause.content) :
    v.truth clause.toQuery = v.truth other.toQuery := by
  obtain ⟨hkey, rfl⟩ := Prod.mk.inj hcontent
  rw [← truth_withValues_self hv hwf, withValues_congr hwf hother hkey.symm rfl]
  exact truth_withValues hv hother hforms h

end Clause

namespace Valuation

/-- Leaving out repeated operands does not change the truth of a junction. -/
@[simp] theorem truth_joinDistinct (v : Valuation) (kind : Junction) (cs : List Query) :
    v.truth (.joinDistinct kind cs) = kind.holds v.truth cs := by
  unfold Query.joinDistinct
  split
  · rename_i kind' cs' hjoin
    rw [truth_join, ← truth_join v kind, hjoin, truth_junction]
    exact Junction.holds_eq_of_mem_iff fun c => mem_distinct
  · rw [truth_join]

end Valuation

/-! ## Excluded clauses -/

/-- A query that is never true. -/
def Query.never : Query := .junction .or []

theorem Query.truth_never (v : Valuation) : v.truth never = false := by
  rw [never, Valuation.truth_junction]
  rfl

namespace Expander

/-- Whether a clause stays in the query though no normalizer accepts it. -/
def keeps (e : Expander) (p : Policy) (field : String) : Bool :=
  p.evaluationOnly || p.strict || e.config.isStrict field || p.lenient || e.config.isLenient field

/-- Whether no normalizer accepts a clause and no policy keeps it. -/
def excludes (e : Expander) (p : Policy) (clause : Clause) : Bool :=
  (e.variants? clause).isNone && !e.keeps p clause.field

mutual

/-- The query without its excluded clauses, which become false. Nothing is excluded
    beneath markers of terms and values that ran into their limit, or beneath a drop.
    The children of junctions that `spares` names stay as well. -/
def pruned (e : Expander) (spares : Junction → List Query → Query → Bool) (p : Policy) :
    Query → Query
  | .junction kind cs => .junction kind (e.prunedAll spares p (spares kind cs) cs)
  | .not c => .not (e.pruned spares p c)
  | .group c => .group (e.pruned spares p c)
  | .compare c =>
    match e.clause? (.compare c) with
    | some clause => if e.excludes p clause then .never else .compare c
    | none => .compare c
  | .call c => .call c
  | .marked m note c =>
    if isSealed m then .marked m note c
    else
      match e.clause? (.marked m note c) with
      | some clause => if e.excludes p clause then .never else .marked m note c
      | none => .marked m note (e.pruned spares (p.beneath m) c)

/-- Several queries without their excluded clauses, save those that `stays` names. -/
def prunedAll (e : Expander) (spares : Junction → List Query → Query → Bool) (p : Policy)
    (stays : Query → Bool) : List Query → List Query
  | [] => []
  | c :: cs => (if stays c then c else e.pruned spares p c) :: e.prunedAll spares p stays cs

end

variable {e : Expander} {p : Policy} {spares : Junction → List Query → Query → Bool}

theorem prunedAll_eq_map (stays : Query → Bool) (cs : List Query) :
    e.prunedAll spares p stays cs = cs.map fun c => if stays c then c else e.pruned spares p c := by
  induction cs with
  | nil => rw [prunedAll, List.map_nil]
  | cons c cs ih => rw [prunedAll, ih, List.map_cons]

theorem pruned_junction (kind : Junction) (cs : List Query) :
    e.pruned spares p (.junction kind cs) =
      .junction kind (cs.map fun c => if spares kind cs c then c else e.pruned spares p c) := by
  rw [pruned, prunedAll_eq_map]

theorem pruned_of_clause? {q : Query} {clause : Clause} (h : e.clause? q = some clause) :
    e.pruned spares p q = if e.excludes p clause then .never else q := by
  obtain ⟨c, rfl, -⟩ | ⟨note, child, b, rfl, -⟩ := eq_of_clause? h
  · simp only [pruned, h]
  · simp [pruned, h, isSealed]

theorem pruned_marked {m : Marker} (hm : isSealed m = false) {note : Option DropNote} {c : Query}
    (h : e.clause? (.marked m note c) = none) :
    e.pruned spares p (.marked m note c) = .marked m note (e.pruned spares (p.beneath m) c) := by
  simp [pruned, h, hm]

/-- A clause that no normalizer accepts is kept, left to evaluation or dropped. -/
theorem truth_refused (v : Valuation) (q : Query) (clause : Clause) :
    v.truth (e.refused p q clause) = (e.keeps p clause.field && v.truth q) := by
  unfold refused keeps
  split
  · simp_all
  · split
    · have hmark : v.truth (.mark .evaluationOnly q) = v.truth q :=
        v.truth_marked (by decide) (by decide) none q
      rw [hmark]
      simp_all
    · split
      · simp_all
      · simp_all [Query.dropped]

variable {v : Valuation}

/-- A clause is as true as its forms, unless it is excluded. -/
theorem truth_expandClause (hv : v.Invariant e.catalog) {q : Query} {clause : Clause}
    (h : e.clause? q = some clause) :
    v.truth (e.expandClause p q clause) = v.truth (if e.excludes p clause then .never else q) := by
  have hwf := wellFormed_of_clause? h
  have hself : v.truth clause.toQuery = v.truth q :=
    Clause.truth_toQuery v (clause?_eq_some.1 h).1
  rw [expandClause_eq]
  unfold replaced excludes
  split
  · rename_i hnone
    rw [truth_refused, hnone]
    by_cases hkeeps : e.keeps p clause.field
    · simp [hkeeps]
    · simp [hkeeps, Query.truth_never]
  · rename_i values hforms
    have hforms' := Clause.forms_of_variants? hforms
    rw [hforms]
    split
    · simp
    · rw [Clause.truth_withValues hv hwf hforms' List.mem_cons_self, hself]
      simp
  · rename_i forms _ hforms
    have hforms' := Clause.forms_of_variants? hforms
    rw [Valuation.truth_joinDistinct, Junction.holds_map, hforms]
    apply Junction.holds_const hforms'.ne_nil
    intro values hvalues
    rw [Clause.truth_withValues hv hwf hforms' hvalues, hself]
    simp

/-! ## Siblings -/

/-- Whether a clause of a conjunction that no normalizer accepts is taken for what a
    normalizer makes of a sibling. -/
def misreads (e : Expander) (kind : Junction) (siblings : List Query) (c : Query) : Bool :=
  kind = .and && e.isCovered kind siblings c && ((e.clause? c).bind e.variants?).isNone

theorem misreads_or (siblings : List Query) (c : Query) : e.misreads .or siblings c = false := rfl

/-- A child with forms is never pruned. -/
theorem pruned_of_variants? {q : Query} {clause : Clause} {forms : List (List String)}
    (h : e.clause? q = some clause) (hforms : e.variants? clause = some forms) :
    e.pruned spares p q = q := by
  rw [pruned_of_clause? h, if_neg]
  simp [excludes, hforms]

/-- A clause without forms that stays in a disjunction is as true as a sibling with
    forms. -/
theorem exists_sibling_of_isCovered (hv : v.Invariant e.catalog) {kind : Junction}
    {cs : List Query} {c : Query} (h : e.isCovered kind cs c = true) :
    ∃ s ∈ cs, ∃ clause forms, e.clause? s = some clause ∧ e.variants? clause = some forms ∧
      v.truth s = v.truth c := by
  obtain ⟨clause, hclause, -, hcovered⟩ := isCovered_iff.1 h
  obtain ⟨other, hother, forms, hforms, -, values, hvalues, hcontent⟩ := mem_covered.1 hcovered
  obtain ⟨s, hs, hsclause, -⟩ := mem_clausesOf.1 hother
  refine ⟨s, hs, other, forms, hsclause, hforms, ?_⟩
  rw [← Clause.truth_toQuery v (clause?_eq_some.1 hsclause).1,
    ← Clause.truth_toQuery v (clause?_eq_some.1 hclause).1]
  exact (Clause.truth_eq_of_content hv (wellFormed_of_clause? hclause)
    (wellFormed_of_clause? hsclause) (Clause.forms_of_variants? hforms) hvalues hcontent).symm

/-- The operands of a junction that expansion makes, and those that are not excluded. -/
theorem holds_children (hv : v.Invariant e.catalog) {kind : Junction} {cs : List Query}
    (hcs : ∀ c ∈ cs, v.truth (e.expandWith p c) = v.truth (e.pruned e.misreads p c)) :
    kind.holds v.truth (cs.map fun c => if e.isCovered kind cs c then c else e.expandWith p c) =
      kind.holds v.truth
        (cs.map fun c => if e.misreads kind cs c then c else e.pruned e.misreads p c) := by
  rw [Junction.holds_map, Junction.holds_map]
  cases kind with
  | and =>
    -- child by child: a covered child stays on either side, with forms or without
    apply Junction.holds_congr
    intro c hc
    by_cases hcovered : e.isCovered .and cs c = true
    · obtain ⟨clause, hclause, -⟩ := isCovered_iff.1 hcovered
      cases hforms : e.variants? clause with
      | none => simp [misreads, hcovered, hclause, hforms]
      | some forms =>
        have hstays : e.pruned e.misreads p c = c := pruned_of_variants? hclause hforms
        simp [hcovered, hstays]
    · simp [misreads, hcovered, hcs c hc]
  | or =>
    -- not child by child: what stays on one side only is true of a sibling as well
    rw [Junction.holds_or, Junction.holds_or, Bool.eq_iff_iff]
    simp only [misreads_or, Bool.false_eq_true, if_false, List.any_eq_true]
    constructor
    · rintro ⟨c, hc, htrue⟩
      by_cases hcovered : e.isCovered .or cs c = true
      · -- the clause may be excluded, but not the sibling of which it is a form
        obtain ⟨s, hs, clause, forms, hclause, hforms, hsame⟩ :=
          exists_sibling_of_isCovered hv hcovered
        rw [if_pos hcovered] at htrue
        exact ⟨s, hs, by rw [pruned_of_variants? hclause hforms, hsame, htrue]⟩
      · rw [if_neg hcovered, hcs c hc] at htrue
        exact ⟨c, hc, htrue⟩
    · rintro ⟨c, hc, htrue⟩
      refine ⟨c, hc, ?_⟩
      by_cases hcovered : e.isCovered .or cs c = true
      · rw [if_pos hcovered]
        obtain ⟨clause, hclause, -⟩ := isCovered_iff.1 hcovered
        rw [pruned_of_clause? hclause] at htrue
        split at htrue
        · rw [Query.truth_never] at htrue
          cases htrue
        · exact htrue
      · rw [if_neg hcovered, hcs c hc, htrue]

/-! ## Calls -/

theorem normalized_expandArgument {scope : List String} (arg : Argument) :
    arg.Normalized e.catalog (expandArgument (e.normalizersOf scope) arg) := by
  cases arg with
  | field name | identifier name => exact .same _
  | literal l =>
    rw [expandArgument_literal]
    cases htext : l.text? with
    | none => exact .same _
    | some text =>
      dsimp only
      split
      · exact .same _
      · rename_i hform
        obtain ⟨n, hn, hvalue⟩ | ⟨hsame, -⟩ := expandText_cases (e.normalizersOf scope) text
        · obtain ⟨field, -, hn⟩ := normalizersFor_of_mem hn
          exact .literal htext hn hvalue
        · exact absurd hsame hform

theorem call_expandCall (hv : v.Invariant e.catalog) (c : Call) :
    v.call (e.expandCall c) = v.call c := by
  rw [expandCall_eq]
  split
  · rfl
  · exact hv.call c _ fun arg _ => normalized_expandArgument arg

/-! ## Trees -/

/-- An expanded query is as true as the pruned one. -/
theorem truth_expandWith (hv : v.Invariant e.catalog) (q : Query) (p : Policy) :
    v.truth (e.expandWith p q) = v.truth (e.pruned e.misreads p q) := by
  apply e.expandWith_induction (motive := fun p q r => v.truth r = v.truth (e.pruned e.misreads p q))
  case junction =>
    intro p kind cs ih
    rw [pruned_junction, Valuation.truth_joinDistinct, Valuation.truth_junction]
    exact holds_children hv ih
  case not =>
    intro p c ih
    rw [pruned, Valuation.truth_not, Valuation.truth_not, ih]
  case group =>
    intro p c ih
    rw [pruned, Valuation.truth_group, Valuation.truth_group, ih]
  case clause =>
    intro p q clause hclause
    rw [pruned_of_clause? hclause, truth_expandClause hv hclause]
  case compare =>
    intro p leaf hclause
    simp only [pruned, hclause]
  case call =>
    intro p call
    rw [pruned, Valuation.truth_call, Valuation.truth_call, call_expandCall hv]
  case closed =>
    intro p m note c hsealed
    rw [pruned, if_pos hsealed]
  case marked =>
    intro p m note c hsealed hclause ih
    rw [pruned_marked hsealed hclause]
    -- a drop is sealed, so the marker passes the truth of its child on
    by_cases hdelayed : m = .delayed
    · rw [hdelayed, Valuation.truth_delayed, Valuation.truth_delayed, ← hdelayed, ih]
    · have hdrop : m ≠ .drop := by
        rintro rfl
        cases hsealed
      rw [Valuation.truth_marked v hdrop hdelayed, Valuation.truth_marked v hdrop hdelayed, ih]

/-! ## Pruning every clause -/

/-- Whether no clause of a conjunction is taken for a form of a sibling. -/
def ReadsAll (e : Expander) (q : Query) : Prop :=
  ∀ kind cs, .junction kind cs ∈ q.subtrees → ∀ c ∈ cs, e.misreads kind cs c = false

theorem ReadsAll.child {q c : Query} (h : e.ReadsAll q) (hc : c ∈ q.children) : e.ReadsAll c :=
  fun kind cs hcs => h kind cs (Query.mem_subtrees_of_child hc hcs)

/-- Normalizers in stock accept what they have written, if its digits are those of ASCII. -/
theorem readsAll_of_ascii (hstock : e.catalog.Stock) {q : Query} (hascii : q.Ascii) :
    e.ReadsAll q := by
  intro kind cs hcs c hc
  rw [Bool.eq_false_iff]
  intro hmisread
  simp only [misreads, Bool.and_eq_true, Option.isNone_iff_eq_none] at hmisread
  obtain ⟨⟨-, hcovered⟩, hnone⟩ := hmisread
  obtain ⟨clause, hclause, -, hcovered⟩ := isCovered_iff.1 hcovered
  rw [hclause, Option.bind_some] at hnone
  obtain ⟨s, hs, forms, hforms, -, values, hvalues, hcontent⟩ := mem_covered.1 hcovered
  obtain ⟨t, ht, hsclause, -⟩ := mem_clausesOf.1 hs
  -- the form of a sibling without digits of other scripts has forms itself
  have htexts : ∀ text ∈ s.values, AsciiDigits text := by
    apply asciiDigits_of_clause? _ hsclause
    intro d hd
    have hinner : .compare d ∈ (Query.junction kind cs).subtrees := Query.mem_subtrees_of_child ht hd
    exact hascii d (Query.mem_subtrees_trans hinner q hcs)
  have hfield : clause.field = s.field := Clause.field_of_key (Prod.mk.inj hcontent).1.symm
  rw [variants?_eq, hfield] at hnone
  exact Clause.variants?_ne_none (hstock s.field) htexts hforms hvalues hcontent hnone

/-- Where no clause is taken for another one, the excluded clauses are all pruned. -/
theorem pruned_misreads (q : Query) (p : Policy) (h : e.ReadsAll q) :
    e.pruned e.misreads p q = e.pruned (fun _ _ _ => false) p q := by
  induction q using Query.induction generalizing p with
  | junction kind cs ih =>
    rw [pruned_junction, pruned_junction]
    congr 1
    apply List.map_congr_left
    intro c hc
    rw [h kind cs (Query.self_mem_subtrees _) c hc]
    exact ih c hc p (h.child hc)
  | not c ih | group c ih => rw [pruned, pruned, ih p (h.child List.mem_cons_self)]
  | compare c | call c => rw [pruned, pruned]
  | marked m note c ih => rw [pruned, pruned, ih (p.beneath m) (h.child List.mem_cons_self)]

end Expander

/-! ## Expanded queries -/

/-- An expanded query is as true as the query without its excluded clauses, of which
    those stay that are taken for a form of a sibling in a conjunction. Where there is
    none of these, it is as true as the query without any excluded clause. -/
theorem Query.truth_expand (q : Query) (catalog : Catalog) (config : Config) (v : Valuation)
    (hv : v.Invariant catalog) :
    let e := q.expander catalog config
    v.truth (q.expand catalog config) = v.truth (e.pruned e.misreads {} q) ∧
      (e.ReadsAll q →
        v.truth (q.expand catalog config) = v.truth (e.pruned (fun _ _ _ => false) {} q)) := by
  have hexact : v.truth (q.expand catalog config) =
      v.truth ((q.expander catalog config).pruned (q.expander catalog config).misreads {} q) :=
    Expander.truth_expandWith hv q {}
  refine ⟨hexact, ?_⟩
  intro hreads
  rw [hexact, Expander.pruned_misreads q {} hreads]

/-- Where the normalizers are in stock and the digits those of ASCII, an expanded query is
    as true as the query without its excluded clauses. -/
theorem Query.truth_expand_of_ascii (q : Query) (catalog : Catalog) (config : Config)
    (v : Valuation) (hv : v.Invariant catalog) (hstock : catalog.Stock) (hascii : q.Ascii) :
    v.truth (q.expand catalog config) =
      v.truth ((q.expander catalog config).pruned (fun _ _ _ => false) {} q) := by
  have hreads : (q.expander catalog config).ReadsAll q := Expander.readsAll_of_ascii hstock hascii
  have hexact : v.truth (q.expand catalog config) =
      v.truth ((q.expander catalog config).pruned (q.expander catalog config).misreads {} q) :=
    Expander.truth_expandWith hv q {}
  rw [hexact, Expander.pruned_misreads q {} hreads]

/-! ### A field of numbers -/

/-- The field `NUM` holds numbers. -/
def numberCatalog : Catalog := { fields := .ofList [("NUM", { normalizers := [.number] })] }

theorem stock_numberCatalog : numberCatalog.Stock := by
  apply Catalog.stock_of_entries
  intro entry hentry n hn
  have hentry : entry ∈ [("NUM", { normalizers := [.number] })] := hentry
  obtain rfl := List.mem_singleton.1 hentry
  rw [List.mem_singleton.1 hn]
  exact Normalizer.mem_stock.2 (.inr (.inr (.inl rfl)))

/-- Every comparison of `NUM` is true, and no other one. -/
def numberValuation : Valuation := { compare := fun c => c.field == "NUM", call := fun _ => true }

theorem invariant_numberValuation : numberValuation.Invariant numberCatalog where
  text _ _ := rfl
  normalized _ _ _ _ _ _ := rfl
  call _ _ _ := rfl

/-- `NUM != '10' && !(NUM == 'ten')` -/
def numberQuery : Query :=
  .junction .and [.compareWith .ne "NUM" (.string "10"),
    .not (.compareWith .eq "NUM" (.string "ten"))]

/-- The second comparison is excluded, so that its negation is true. -/
theorem truth_expand_numberQuery :
    numberValuation.Invariant numberCatalog ∧
      (numberQuery.expander numberCatalog {}).ReadsAll numberQuery ∧
      numberValuation.truth (numberQuery.expand numberCatalog {}) = true := by
  have hreads : (numberQuery.expander numberCatalog {}).ReadsAll numberQuery := by
    intro kind cs hcs c hc
    simp only [numberQuery, Query.compareWith, Query.subtrees, Query.subtreesOfAll,
      List.mem_cons, List.mem_append, List.not_mem_nil, or_false, Query.junction.injEq,
      reduceCtorEq] at hcs
    obtain ⟨rfl, rfl⟩ := hcs
    rcases List.mem_cons.1 hc with rfl | hc
    · rw [Expander.misreads, Bool.and_eq_false_iff]
      exact .inr rfl
    · rw [List.mem_singleton.1 hc]
      rfl
  refine ⟨invariant_numberValuation, hreads, ?_⟩
  rw [(numberQuery.truth_expand numberCatalog {} numberValuation invariant_numberValuation).2
    hreads]
  rfl

/-- `NUM != '٣' && NUM != '+bE169.£'`, of which the second text is what becomes of the
    first one. -/
def scriptQuery : Query :=
  .junction .and [.compareWith .ne "NUM" (.string "٣"),
    .compareWith .ne "NUM" (.string "+bE169.£")]

/-- The second comparison is the only form of the first one. -/
theorem isCovered_scriptQuery :
    (scriptQuery.expander numberCatalog {}).isCovered .and scriptQuery.children
      (.compareWith .ne "NUM" (.string "+bE169.£")) = true := by
  rw [Expander.isCovered_iff]
  refine ⟨.leaf ⟨.ne, "NUM", .string "+bE169.£"⟩, rfl, rfl, Expander.mem_covered.2 ?_⟩
  refine ⟨.leaf ⟨.ne, "NUM", .string "٣"⟩, List.mem_cons_self, [["+bE169.£"]], rfl, ?_,
    ["+bE169.£"], List.mem_cons_self, rfl⟩
  intro values hvalues
  rw [List.mem_singleton.1 hvalues]
  exact ⟨.leaf ⟨.ne, "NUM", .string "+bE169.£"⟩, List.mem_cons_of_mem _ List.mem_cons_self, rfl⟩

/-- Though no normalizer accepts the second text, its comparison stays. -/
theorem not_forall_truth_expand :
    ¬ ∀ (q : Query) (catalog : Catalog) (config : Config) (v : Valuation),
      catalog.Stock → v.Invariant catalog →
        v.truth (q.expand catalog config) =
          v.truth ((q.expander catalog config).pruned (fun _ _ _ => false) {} q) := by
  intro hall
  have hclaim := hall scriptQuery numberCatalog {} numberValuation stock_numberCatalog
    invariant_numberValuation
  have hexact : numberValuation.truth (scriptQuery.expand numberCatalog {}) = numberValuation.truth
      ((scriptQuery.expander numberCatalog {}).pruned
        (scriptQuery.expander numberCatalog {}).misreads {} scriptQuery) :=
    Expander.truth_expandWith invariant_numberValuation scriptQuery {}
  have hmisread : (scriptQuery.expander numberCatalog {}).misreads .and scriptQuery.children
      (.compareWith .ne "NUM" (.string "+bE169.£")) = true := by
    rw [Expander.misreads, isCovered_scriptQuery]
    rfl
  have hstays : numberValuation.truth ((scriptQuery.expander numberCatalog {}).pruned
      (scriptQuery.expander numberCatalog {}).misreads {} scriptQuery) = true := by
    show numberValuation.truth (Expander.pruned _ _ _ (.junction .and scriptQuery.children)) = true
    rw [Expander.pruned_junction, Valuation.truth_junction, Junction.holds_map, Junction.holds_and,
      List.all_eq_true]
    intro c hc
    rcases List.mem_cons.1 hc with rfl | hc
    · split <;> rfl
    · rw [List.mem_singleton.1 hc, if_pos hmisread]
      rfl
  have hpruned : numberValuation.truth
      ((scriptQuery.expander numberCatalog {}).pruned (fun _ _ _ => false) {} scriptQuery)
        = false := rfl
  rw [hclaim, hstays] at hexact
  exact absurd hexact (by rw [hpruned]; decide)

end IndexQuery
