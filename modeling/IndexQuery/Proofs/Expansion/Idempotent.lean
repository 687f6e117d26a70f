import IndexQuery.Proofs.Expansion.Overflow
import IndexQuery.Proofs.Expansion.Settled

/-! # Expansion is idempotent

    What expansion leaves behind is settled, so that expanding it again changes
    nothing. A second expansion consults another list of fields, for it looks at the
    fields of the expanded query, but these are the same fields.

    * `Query.Ready`: the ranges are ranges and the digits those of ASCII.
    * `Expander.settled_expandWith`: an expanded query is settled.
    * `Query.expand_expand`: expansion is idempotent, and stays within its range.
-/

namespace IndexQuery

/-! ## Clauses -/

/-- The bounds of a range are read back. -/
theorem Bounds.ofComparisons?_self {b : Bounds} (h : b.WellFormed) :
    ofComparisons? b.lower b.upper = some b := by
  simp [ofComparisons?, h.field, h.lower, h.upper, h.lower_text, h.upper_text]

theorem Clause.of?_toQuery {clause : Clause} (h : clause.WellFormed) :
    of? clause.toQuery = some clause := by
  cases clause with
  | leaf c =>
    have hnull : c.literal.isNull = false := h
    simp [toQuery, of?, hnull]
  | range b =>
    show (Query.range b).bounds?.map Clause.range = some (.range b)
    rw [Query.bounds?_range, Bounds.ofComparisons?_self h]
    rfl

namespace Expander

variable {e : Expander} {p : Policy} {kind : Junction} {q : Query} {clause : Clause}
  {values : List String}

theorem clause?_toQuery (hwf : clause.WellFormed)
    (hnormalizers : e.catalog.normalizersFor clause.field ≠ []) :
    e.clause? clause.toQuery = some clause :=
  clause?_eq_some.2 ⟨Clause.of?_toQuery hwf, hnormalizers⟩

/-- A form of a clause is a clause. -/
theorem clause?_form (hclause : e.clause? q = some clause)
    (hlength : values.length = clause.values.length) :
    e.clause? (clause.withValues values).toQuery = some (clause.withValues values) := by
  apply clause?_toQuery (Clause.wellFormed_withValues (wellFormed_of_clause? hclause) hlength)
  rw [Clause.field_withValues]
  exact (clause?_eq_some.1 hclause).2

theorem settled_of_clause? (hclause : e.clause? q = some clause) (h : e.expandWith p q = q) :
    e.Settled p q :=
  settled_of_fixed (isOperand_of_clause? hclause) h

/-- A clause that no normalizer accepts is settled, with the marker that it may get. -/
theorem settled_refused (hclause : e.clause? q = some clause)
    (hrefused : e.variants? clause = none) : e.Settled p (e.refused p q clause) := by
  have hexpand : ∀ p' : Policy, e.expandWith p' q = e.refused p' q clause := by
    intro p'
    rw [expandWith_of_clause? hclause, expandClause_eq, hrefused]
    rfl
  -- the same policy meets the clause again, unless it was marked
  have hself : e.refused p q clause = q → e.Settled p (e.refused p q clause) := by
    intro hself
    rw [hself]
    exact settled_of_clause? hclause ((hexpand p).trans hself)
  by_cases hevaluation : p.evaluationOnly = true
  · exact hself (if_pos hevaluation)
  by_cases hstrict : (p.strict || e.config.isStrict clause.field) = true
  · have hmark : e.refused p q clause = .mark .evaluationOnly q := by
      rw [refused, if_neg hevaluation, if_pos hstrict]
    rw [hmark]
    apply settled_of_fixed
    · intro kind cs h
      cases h
    · -- beneath its marker the clause is left to evaluation
      have hbeneath : e.expandWith (p.beneath .evaluationOnly) q = q := by
        rw [hexpand]
        exact if_pos rfl
      rw [Query.mark, expandWith_marked rfl (clause?_marked (by decide) none q), hbeneath]
  by_cases hlenient : (p.lenient || e.config.isLenient clause.field) = true
  · apply hself
    rw [refused, if_neg hevaluation, if_neg hstrict, if_pos hlenient]
  · rw [refused, if_neg hevaluation, if_neg hstrict, if_neg hlenient, Query.dropped]
    apply settled_of_fixed
    · intro kind cs h
      cases h
    · exact expandWith_sealed rfl _ _

/-- The forms of a clause that has several cover each other. -/
theorem isCovered_forms (hclause : e.clause? q = some clause) {forms : List (List String)}
    (hforms : e.variants? clause = some forms) (hwritten : clause.values ∈ forms)
    (hvalues : values ∈ forms) :
    e.isCovered clause.junction (forms.map fun values => (clause.withValues values).toQuery)
      (clause.withValues values).toQuery = true := by
  have hforms' := Clause.forms_of_variants? hforms
  -- each form is among the siblings; that as written has all of them for its forms
  have hform : ∀ form ∈ forms,
      clause.withValues form ∈ e.clausesOf clause.junction
        (forms.map fun values => (clause.withValues values).toQuery) ∧
      (clause.withValues form).content = (clause.key, form) := by
    intro form hform
    have hlength := hforms'.length hform
    refine ⟨mem_clausesOf.2 ⟨_, List.mem_map_of_mem hform, clause?_form hclause hlength,
      Clause.junction_withValues clause⟩, ?_⟩
    rw [Clause.content, Clause.key_withValues, Clause.values_withValues hlength]
  obtain ⟨hmem, hcontent⟩ := hform clause.values hwritten
  have hvariants : e.variants? (clause.withValues clause.values) = some forms := by
    rw [← hforms, variants?_eq, variants?_eq, Clause.field_withValues]
    exact Clause.variants?_congr hcontent
  refine isCovered_iff.2 ⟨_, clause?_form hclause (hforms'.length hvalues),
    Clause.junction_withValues clause, mem_covered.2 ⟨_, hmem, forms, hvariants, ?_, values, hvalues, ?_⟩⟩
  · intro form hform'
    rw [Clause.key_withValues]
    exact ⟨_, (hform form hform').1, (hform form hform').2⟩
  · rw [Clause.key_withValues, (hform values hvalues).2]

/-- A clause by its forms is settled. -/
theorem settled_expandClause (hstock : e.catalog.Stock) (hclause : e.clause? q = some clause)
    (hascii : ∀ text ∈ clause.values, AsciiDigits text) :
    e.Settled p (e.expandClause p q clause) := by
  have hexpand : e.expandWith p q = e.expandClause p q clause := expandWith_of_clause? hclause
  rw [expandClause_eq] at hexpand ⊢
  unfold replaced at hexpand ⊢
  split
  · rename_i hnone
    exact settled_refused hclause hnone
  · rename_i values hforms
    have hlength := (Clause.forms_of_variants? hforms).length List.mem_cons_self
    rw [hforms] at hexpand
    dsimp only at hexpand
    split
    · rename_i hself
      rw [if_pos hself] at hexpand
      exact settled_of_clause? hclause hexpand
    · have hform := clause?_form hclause hlength
      apply settled_of_clause? hform
      apply expandWith_of_variants? hform
      rw [variants?_eq, Clause.field_withValues, Clause.values_withValues hlength]
      exact Clause.variants?_withValues (hstock _) hascii hforms
  · -- several forms cover each other, since that as written is one of them
    rename_i forms hseveral hforms
    have hforms' := Clause.forms_of_variants? hforms
    have hwritten : clause.values ∈ forms := by
      apply hforms'.written
      have hpos := List.length_pos_iff.2 hforms'.ne_nil
      have hne : forms.length ≠ 1 := by
        intro hone
        obtain ⟨values, rfl⟩ := List.length_eq_one_iff.1 hone
        exact hseveral values rfl
      omega
    apply settled_joinDistinct
    intro r hr
    obtain ⟨values, hvalues, rfl⟩ := List.mem_map.1 hr
    exact .inr (isCovered_forms hclause hforms hwritten hvalues)

/-- A covered clause can be joined with whatever becomes of its siblings: it is the only
    form of one of them, or the sibling of which it is a form is covered as well. -/
theorem joinable_of_isCovered (hstock : e.catalog.Stock) {cs rs : List Query} {c : Query}
    (hascii : ∀ s ∈ e.clausesOf kind cs, ∀ text ∈ s.values, AsciiDigits text)
    (hkept : ∀ t ∈ cs, e.isCovered kind cs t = true → t ∈ rs)
    (h : e.isCovered kind cs c = true) : e.Joinable p kind rs c := by
  obtain ⟨clause, hclause, hkind, hcovered⟩ := isCovered_iff.1 h
  obtain ⟨s, hs, forms, hforms, hall, values, hvalues, hcontent⟩ := mem_covered.1 hcovered
  have hforms' := Clause.forms_of_variants? hforms
  -- siblings that say what a form says are covered, and kept
  have hpresent : ∀ form ∈ forms, ∃ t ∈ e.clausesOf kind rs, t.content = (s.key, form) := by
    intro form hform
    obtain ⟨t, ht, hsays⟩ := hall form hform
    obtain ⟨d, hd, hdclause, hdkind⟩ := mem_clausesOf.1 ht
    have hdcovered : e.isCovered kind cs d = true :=
      isCovered_iff.2 ⟨t, hdclause, hdkind, mem_covered.2
        ⟨s, hs, forms, hforms, hall, form, hform, hsays.symm⟩⟩
    exact ⟨t, mem_clausesOf.2 ⟨d, hkept d hd hdcovered, hdclause, hdkind⟩, hsays⟩
  by_cases hwritten : s.values ∈ forms
  · -- the sibling may go, but one that says the same stays and covers in its place
    obtain ⟨t, ht, hsays⟩ := hpresent s.values hwritten
    have hkey : t.key = s.key := (Prod.mk.inj hsays).1
    have hfield : t.field = s.field := Clause.field_of_key hkey
    have hvariants : e.variants? t = some forms := by
      rw [← hforms, variants?_eq, variants?_eq, hfield]
      exact Clause.variants?_congr hsays
    refine .inr (isCovered_iff.2 ⟨clause, hclause, hkind, mem_covered.2
      ⟨t, ht, forms, hvariants, ?_, values, hvalues, ?_⟩⟩)
    · rw [hkey]
      exact hpresent
    · rw [hkey, hcontent]
  · -- otherwise the clause is the only form, and a single form is its own form
    have hsingle : forms = [values] := by
      have hpos := List.length_pos_of_mem hvalues
      have hone : forms.length = 1 := by
        have hfew : ¬ 1 < forms.length := fun hlong => hwritten (hforms'.written hlong)
        omega
      obtain ⟨form, rfl⟩ := List.length_eq_one_iff.1 hone
      rw [List.mem_singleton.1 hvalues]
    subst hsingle
    have hlength := hforms'.length hvalues
    have hsays : clause.content = (s.withValues values).content := by
      rw [← hcontent, Clause.content, Clause.key_withValues, Clause.values_withValues hlength]
    have hfield : clause.field = s.field := Clause.field_of_key (Prod.mk.inj hcontent).1.symm
    refine .inl (settled_of_clause? hclause (expandWith_of_variants? hclause ?_))
    rw [variants?_eq, hfield, Clause.variants?_congr hsays,
      Clause.variants?_withValues (hstock _) (hascii s hs) hforms, (Prod.mk.inj hcontent).2]

/-! ## Ranges without normalizers -/

/-- A comparison stays, whatever the groups around it, if its field has no normalizers. -/
theorem expandWith_of_ungrouped {q : Query} {c : Comparison} (hq : q.ungrouped = .compare c)
    (hnone : e.catalog.normalizersFor c.field = []) : e.expandWith p q = q := by
  fun_induction Query.ungrouped q with
  | case1 child ih => rw [expandWith_group, ih hq]
  | case2 q _ =>
    subst hq
    have hclause : e.clause? (.compare c) = none := by
      cases hclause : e.clause? (.compare c) with
      | none => rfl
      | some clause =>
        obtain ⟨hof, hnormalizers⟩ := clause?_eq_some.1 hclause
        obtain ⟨d, hd, -, rfl⟩ | ⟨b, hb, -⟩ := Clause.of?_eq_some hof
        · cases hd
          exact absurd hnone hnormalizers
        · cases hb
    exact expandWith_compare hclause

/-- What stays without its groups stays with them. -/
theorem expandWith_of_expandWith_ungrouped {q : Query}
    (h : e.expandWith p q.ungrouped = q.ungrouped) : e.expandWith p q = q := by
  fun_induction Query.ungrouped q with
  | case1 child ih => rw [expandWith_group, ih h]
  | case2 q _ => exact h

/-- A range on a field without normalizers stays. -/
theorem expandWith_of_bounds? {q : Query} {b : Bounds} (hb : q.bounds? = some b)
    (hclause : e.clause? q = none) : e.expandWith p q = q := by
  obtain ⟨note, child, x, y, a, c, rfl, hchild, hx, hy, hac⟩ := Query.eq_marked_of_bounds? hb
  obtain ⟨ha, hc, hne⟩ := Bounds.fields_of_ofComparisons? hac
  have hnone : e.catalog.normalizersFor b.lower.field = [] := by
    have hof : Clause.of? (.marked .bounded note child) = some (.range b) := by
      show (Query.marked .bounded note child).bounds?.map Clause.range = some (.range b)
      rw [hb]
      rfl
    by_cases hnormalizers : e.catalog.normalizersFor b.lower.field = []
    · exact hnormalizers
    · rw [clause?_eq_some.2 ⟨hof, hnormalizers⟩] at hclause
      cases hclause
  -- beneath the marker stands a junction of two different operands that stay
  rw [expandWith_marked rfl hclause]
  congr 1
  apply expandWith_of_expandWith_ungrouped
  rw [hchild]
  have hstay : ∀ z ∈ [x, y], z.IsOperand .and ∧ e.expandWith (p.beneath .bounded) z = z := by
    intro z hz
    have hz : ∃ d, z.ungrouped = .compare d ∧ d.field = b.lower.field := by
      rcases List.mem_cons.1 hz with rfl | hz
      · exact ⟨a, hx, ha⟩
      · rw [List.mem_singleton.1 hz]
        exact ⟨c, hy, hc⟩
    obtain ⟨d, hd, hfield⟩ := hz
    refine ⟨?_, expandWith_of_ungrouped hd (by rw [hfield, hnone])⟩
    rintro ds rfl
    cases hd
  have hnodup : [x, y].Nodup := by
    have hxy : x ≠ y := by
      rintro rfl
      rw [hx] at hy
      cases hy
      exact hne rfl
    simpa using hxy
  exact (settled_junction (fun z hz => ⟨(hstay z hz).1, .inl (hstay z hz).2⟩) hnodup
    (by simp)).fixed

end Expander

/-! ## Trees -/

/-- A query of which expansion makes the same as of its expansion: what is marked as a
    range is one, and no literal has digits of other scripts. -/
structure Query.Ready (q : Query) : Prop where
  ranges : ∀ note c, .marked .bounded note c ∈ q.subtrees →
    (Query.marked .bounded note c).bounds? ≠ none
  comparisons : q.Ascii
  calls : ∀ c, .call c ∈ q.subtrees → c.Ascii

theorem Query.Ready.asciiTexts {q : Query} (h : q.Ready) : q.AsciiTexts := by
  intro r hr
  cases r with
  | compare c => exact h.comparisons c hr
  | call c => exact h.calls c hr
  | junction kind cs | not c | group c | marked m note c => trivial

theorem Query.Ready.child {q c : Query} (h : q.Ready) (hc : c ∈ q.children) : c.Ready where
  ranges note d hd := h.ranges note d (Query.mem_subtrees_of_child hc hd)
  comparisons := h.comparisons.child hc
  calls d hd := h.calls d (Query.mem_subtrees_of_child hc hd)

namespace Expander

variable {e : Expander} {p : Policy} {fields : List String}

/-- What expansion leaves behind is settled, for a list of the same fields. -/
theorem settled_expandWith (hstock : e.catalog.Stock) (hsame : ∀ field, field ∈ fields ↔ field ∈ e.queryFields) (q : Query)
    (p : Policy) (h : q.Ready) :
    Settled { e with queryFields := fields } p (e.expandWith p q) := by
  have hother : Catalog.Stock { e with queryFields := fields }.catalog := hstock
  revert h
  apply e.expandWith_induction
    (motive := fun p q r => q.Ready → Settled { e with queryFields := fields } p r)
  case junction =>
    intro p kind cs ih h
    apply settled_joinDistinct
    intro r hr
    obtain ⟨c, hc, rfl⟩ := List.mem_map.1 hr
    split
    · rename_i hcovered
      -- the list of fields has no say in what is covered
      have hcovered' : isCovered { e with queryFields := fields } kind cs c = true := hcovered
      apply joinable_of_isCovered hother _ _ hcovered'
      · intro s hs
        obtain ⟨t, ht, hclause, -⟩ := mem_clausesOf.1 hs
        exact asciiDigits_of_clause? (h.comparisons.child ht) hclause
      · intro t ht htcovered
        exact List.mem_map.2 ⟨t, ht, if_pos htcovered⟩
    · exact .inl (ih c hc (h.child hc))
  case not | group =>
    intro p c ih h
    have hchild := ih (h.child List.mem_cons_self)
    apply settled_of_fixed (by simp)
    simp only [expandWith_not, expandWith_group, hchild.fixed]
  case clause =>
    intro p q clause hclause h
    exact settled_expandClause hother hclause (asciiDigits_of_clause? h.comparisons hclause)
  case compare =>
    intro p leaf hclause h
    have hclause' : clause? { e with queryFields := fields } (.compare leaf) = none := hclause
    apply settled_of_fixed (by simp)
    exact expandWith_compare hclause'
  case call =>
    intro p call h
    apply settled_of_fixed (by simp)
    rw [expandWith_call, expandCall_expandCall hstock hsame (h.calls call (Query.self_mem_subtrees _))]
  case closed =>
    intro p m note c hsealed h
    exact settled_of_fixed (by simp) (expandWith_sealed hsealed note c)
  case marked =>
    intro p m note c hsealed hclause ih h
    by_cases hbounded : m = .bounded
    · -- a range without normalizers stays, so that it cannot become another one
      subst hbounded
      obtain ⟨b, hb⟩ := Option.ne_none_iff_exists'.1 (h.ranges note c (Query.self_mem_subtrees _))
      rw [← expandWith_marked hsealed hclause, expandWith_of_bounds? hb hclause]
      exact settled_of_fixed (by simp) (expandWith_of_bounds? hb hclause)
    · have hchild := ih (h.child List.mem_cons_self)
      apply settled_of_fixed (by simp)
      rw [expandWith_marked hsealed (clause?_marked hbounded note _), hchild.fixed]

end Expander

/-! ## Fields -/

namespace Query

variable {field : String}

theorem mem_mentions_operands {kind : Junction} {q : Query} :
    (∃ c ∈ q.operands kind, field ∈ c.mentions) ↔ field ∈ q.mentions := by
  unfold operands
  split
  · rename_i k cs
    split
    · exact mem_mentions_junction.symm
    · simp
  · simp

theorem mem_mentions_join {kind : Junction} {cs : List Query} :
    field ∈ (join kind cs).mentions ↔ ∃ c ∈ cs, field ∈ c.mentions := by
  -- the operands of a query mention what the query mentions
  have hflat : (∃ c ∈ cs.flatMap (operands kind), field ∈ c.mentions) ↔
      ∃ c ∈ cs, field ∈ c.mentions := by
    constructor
    · rintro ⟨c, hc, hfield⟩
      obtain ⟨q, hq, hcq⟩ := List.mem_flatMap.1 hc
      exact ⟨q, hq, mem_mentions_operands.1 ⟨c, hcq, hfield⟩⟩
    · rintro ⟨q, hq, hfield⟩
      have hoperand : ∃ c ∈ q.operands kind, field ∈ c.mentions := mem_mentions_operands.2 hfield
      obtain ⟨c, hcq, hfield⟩ := hoperand
      exact ⟨c, List.mem_flatMap.2 ⟨q, hq, hcq⟩, hfield⟩
  rw [← hflat]
  unfold join
  split
  · rename_i c hc
    simp [hc]
  · exact mem_mentions_junction

/-- Neither joining nor dropping repetitions loses a field. -/
theorem mem_mentions_joinDistinct {kind : Junction} {cs : List Query} :
    field ∈ (joinDistinct kind cs).mentions ↔ ∃ c ∈ cs, field ∈ c.mentions := by
  have hjoin : field ∈ (join kind cs).mentions ↔ ∃ c ∈ cs, field ∈ c.mentions := mem_mentions_join
  rw [← hjoin, joinDistinct]
  split
  · rename_i hjunction
    rw [hjunction, mem_mentions_join, mem_mentions_junction]
    simp only [mem_distinct]
  · rfl

theorem mentions_ungrouped (q : Query) : q.ungrouped.mentions = q.mentions := by
  fun_induction ungrouped q with
  | case1 child ih => rw [ih, mentions]
  | case2 q _ => rfl

end Query

namespace Expander

variable {e : Expander} {p : Policy} {field : String} {q : Query} {clause : Clause}

theorem mem_mentions_toQuery (hwf : clause.WellFormed) :
    field ∈ clause.toQuery.mentions ↔ field = clause.field := by
  cases clause with
  | leaf c => simp [Clause.toQuery, Clause.field, Query.mentions]
  | range b =>
    have hfield : b.upper.field = b.lower.field := hwf.field
    simp [Clause.toQuery, Clause.field, Bounds.field, Query.range, Query.mark, Query.mentions,
      Query.mentionsAll, hfield]

/-- A clause mentions its field. -/
theorem mem_mentions_of_clause? (h : e.clause? q = some clause) :
    field ∈ q.mentions ↔ field = clause.field := by
  obtain ⟨c, rfl, -, rfl⟩ | ⟨b, hb, rfl⟩ := Clause.of?_eq_some (clause?_eq_some.1 h).1
  · simp [Clause.field, Query.mentions]
  · obtain ⟨note, child, x, y, a, c, rfl, hchild, hx, hy, hac⟩ := Query.eq_marked_of_bounds? hb
    obtain ⟨ha, hc, -⟩ := Bounds.fields_of_ofComparisons? hac
    rw [Query.mentions, ← Query.mentions_ungrouped, hchild, Query.mem_mentions_junction]
    simp [← Query.mentions_ungrouped x, ← Query.mentions_ungrouped y, hx, hy, Query.mentions,
      Clause.field, Bounds.field, ha, hc]

theorem mem_mentions_expandClause (h : e.clause? q = some clause) :
    field ∈ (e.expandClause p q clause).mentions ↔ field = clause.field := by
  have hself : field ∈ q.mentions ↔ field = clause.field := mem_mentions_of_clause? h
  have hform : ∀ forms, e.variants? clause = some forms → ∀ values ∈ forms,
      (field ∈ (clause.withValues values).toQuery.mentions ↔ field = clause.field) := by
    intro forms hforms values hvalues
    have hlength := (Clause.forms_of_variants? hforms).length hvalues
    rw [mem_mentions_toQuery (Clause.wellFormed_withValues (wellFormed_of_clause? h) hlength),
      Clause.field_withValues]
  apply expandClause_cases (motive := fun r => field ∈ r.mentions ↔ field = clause.field) hself
  case marked => rwa [Query.mark, Query.mentions]
  case dropped =>
    intro reason
    rwa [Query.dropped, Query.mentions]
  case form => exact hform
  case joined =>
    intro forms hforms
    obtain ⟨values, hvalues⟩ := List.exists_mem_of_ne_nil _ (Clause.forms_of_variants? hforms).ne_nil
    rw [Query.mem_mentions_joinDistinct]
    constructor
    · rintro ⟨r, hr, hfield⟩
      obtain ⟨values, hvalues, rfl⟩ := List.mem_map.1 hr
      exact (hform forms hforms values hvalues).1 hfield
    · intro hfield
      exact ⟨_, List.mem_map_of_mem hvalues, (hform forms hforms values hvalues).2 hfield⟩

/-- Expansion keeps the fields of a query. -/
theorem mem_mentions_expandWith (q : Query) (p : Policy) :
    field ∈ (e.expandWith p q).mentions ↔ field ∈ q.mentions := by
  apply e.expandWith_induction (motive := fun _ q r => field ∈ r.mentions ↔ field ∈ q.mentions)
  case junction =>
    intro p kind cs ih
    rw [Query.mem_mentions_joinDistinct, Query.mem_mentions_junction]
    have hchild : ∀ c ∈ cs,
        field ∈ (if e.isCovered kind cs c then c else e.expandWith p c).mentions ↔
          field ∈ c.mentions := by
      intro c hc
      split
      · rfl
      · exact ih c hc
    constructor
    · rintro ⟨r, hr, hfield⟩
      obtain ⟨c, hc, rfl⟩ := List.mem_map.1 hr
      exact ⟨c, hc, (hchild c hc).1 hfield⟩
    · rintro ⟨c, hc, hfield⟩
      exact ⟨_, List.mem_map_of_mem hc, (hchild c hc).2 hfield⟩
  case not | group =>
    intro p c ih
    rw [Query.mentions, Query.mentions, ih]
  case clause =>
    intro p q clause hclause
    rw [mem_mentions_expandClause hclause, mem_mentions_of_clause? hclause]
  case compare | closed =>
    intros
    rfl
  case call =>
    intro p call
    rw [Query.mentions, Query.mentions, fields_expandCall]
  case marked =>
    intro p m note c _ _ ih
    rw [Query.mentions, Query.mentions, ih]

end Expander

/-! ## Expanded queries -/

/-- Expansion by normalizers in stock is idempotent, and neither the first nor the second
    run leaves the range of its arithmetic. -/
theorem Query.expand_expand (q : Query) (catalog : Catalog) (config : Config)
    (hstock : catalog.Stock) (h : q.Ready) :
    (q.expand catalog config).expand catalog config = q.expand catalog config ∧
      (q.expansion catalog config).overflow = false ∧
      ((q.expand catalog config).expansion catalog config).overflow = false := by
  -- the second expansion consults the fields of the expanded query
  have hsame : ∀ field,
      field ∈ ((q.expand catalog config).expander catalog config).queryFields ↔
        field ∈ (q.expander catalog config).queryFields := by
    intro field
    have hfield : field ∈ (q.expand catalog config).mentions ↔ field ∈ q.mentions :=
      Expander.mem_mentions_expandWith q {}
    simp only [Query.expander, mem_distinct, List.mem_append, Query.fields, hfield]
  have hascii := h.asciiTexts
  exact ⟨(Expander.settled_expandWith hstock hsame q {} h).fixed,
    overflow_expansion hstock hascii config,
    overflow_expansion hstock (asciiTexts_expand hstock hascii config) config⟩

/-! ### A field of texts and numbers -/

/-- The field `SIZE` holds texts in lower case and numbers. -/
def sizeCatalog : Catalog :=
  { fields := .ofList [("SIZE", { normalizers := [.lowercase, .number] })] }

/-- `(SIZE == '1E2' || !(SIZE > '5' && SIZE <= 'XL')) && f:g('XL')`, with the pair of
    bounds marked as a range -/
def sizeQuery : Query :=
  .junction .and [
    .junction .or [.compare ⟨.eq, "SIZE", .string "1E2"⟩,
      .not (.range ⟨⟨.gt, "SIZE", .string "5"⟩, ⟨.le, "SIZE", .string "XL"⟩⟩)],
    .call ⟨"f", "g", [.literal (.string "XL")]⟩]

theorem stock_sizeCatalog : sizeCatalog.Stock := by
  apply Catalog.stock_of_entries
  intro entry hentry n hn
  have hentry : entry ∈ [("SIZE", { normalizers := [.lowercase, .number] })] := hentry
  obtain rfl := List.mem_singleton.1 hentry
  simp only [List.mem_cons, List.not_mem_nil, or_false] at hn
  exact Normalizer.mem_stock.2 (hn.elim (.inr ∘ .inl) (.inr ∘ .inr ∘ .inl))

theorem ready_sizeQuery : sizeQuery.Ready where
  ranges note c hc := by
    simp [sizeQuery, Query.range, Query.mark, Query.subtrees, Query.subtreesOfAll] at hc
    obtain ⟨rfl, rfl⟩ := hc
    decide
  comparisons c hc := by
    simp [sizeQuery, Query.range, Query.mark, Query.subtrees, Query.subtreesOfAll] at hc
    rcases hc with rfl | rfl | rfl <;> decide +kernel
  calls c hc := by
    simp [sizeQuery, Query.range, Query.mark, Query.subtrees, Query.subtreesOfAll] at hc
    intro l hl
    rw [hc] at hl
    cases List.mem_singleton.1 hl
    decide +kernel

/-- A text in capitals has several forms, which cover each other the second time. -/
theorem expand_expand_sizeQuery :
    sizeCatalog.Stock ∧ sizeQuery.Ready ∧
      (sizeQuery.expand sizeCatalog {}).expand sizeCatalog {} = sizeQuery.expand sizeCatalog {} ∧
      (sizeQuery.expansion sizeCatalog {}).overflow = false ∧
      ((sizeQuery.expand sizeCatalog {}).expansion sizeCatalog {}).overflow = false :=
  ⟨stock_sizeCatalog, ready_sizeQuery,
    sizeQuery.expand_expand sizeCatalog {} stock_sizeCatalog ready_sizeQuery⟩

end IndexQuery
