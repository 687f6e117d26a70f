import IndexQuery.Proofs.Expansion.Node
import IndexQuery.Proofs.Query.Tidy

/-! # Expansion rebuilds trees

    Expansion takes junctions apart, writes forms in the place of clauses and joins what it
    has made. A shape that rebuilding keeps is kept.

    * `Expander.every_expandClause`: what takes the place of a clause.
    * `Query.every_expand`: an expanded query has the shape of the query.
-/

namespace IndexQuery

open Query (Shape)

variable {p : Query → Bool}

/-- A junction without repetitions of what has a shape. -/
theorem Query.Shape.joinDistinct (hp : Shape p) {kind : Junction} {cs : List Query}
    (hne : cs ≠ []) (hcs : ∀ c ∈ cs, c.Every p) : (Query.joinDistinct kind cs).Every p := by
  have hjoin : (Query.join kind cs).Every p := hp.join hne hcs
  unfold Query.joinDistinct
  split
  · -- without repetitions there may be one operand left, but not none
    rename_i kind' cs' hjunction
    rw [hjunction] at hjoin
    have hlength := (hp.of_junction hjoin).1
    obtain ⟨first, hfirst⟩ := List.exists_mem_of_length_pos (l := cs') (by omega)
    refine hp.join (List.ne_nil_of_mem (mem_distinct.2 hfirst)) ?_
    intro c hc
    exact (Query.every_iff.1 hjoin).2 c (mem_distinct.1 hc)
  · exact hjoin

namespace Expander

variable {e : Expander} {policy : Policy}

/-- The comparisons of a clause stand in the query. -/
theorem every_toQuery_withValues (hp : Shape p) {q : Query} {clause : Clause}
    {values : List String} (h : q.Every p) (hclause : Clause.of? q = some clause)
    (hlength : values.length = clause.values.length) :
    (clause.withValues values).toQuery.Every p := by
  obtain ⟨c, w, rfl, rfl, heq⟩ | ⟨b, lo, hi, rfl, rfl, heq⟩ := clause.withValues_eq hlength
  · obtain ⟨c', rfl, -, hc'⟩ | ⟨b, -, hb⟩ := Clause.of?_eq_some hclause
    · cases hc'
      rw [heq]
      exact (Query.every_leaf rfl).2 (hp.value ((Query.every_leaf rfl).1 h) c.op w)
    · cases hb
  · obtain ⟨c, -, -, hc⟩ | ⟨b', hb', hb⟩ := Clause.of?_eq_some hclause
    · cases hc
    · cases hb
      obtain ⟨hlower, hupper⟩ := Query.mem_subtrees_of_bounds? hb'
      rw [heq]
      exact hp.every_range (hp.value (h _ hlower) _ lo) (hp.value (h _ hupper) _ hi)

theorem every_expandClause (hp : Shape p) {q : Query} {clause : Clause} (h : q.Every p)
    (hclause : e.clause? q = some clause) : (e.expandClause policy q clause).Every p := by
  have hform : ∀ forms, e.variants? clause = some forms → ∀ values ∈ forms,
      (clause.withValues values).toQuery.Every p := fun _ hforms _ hvalues =>
    every_toQuery_withValues hp h (clause?_eq_some.1 hclause).1
      ((Clause.forms_of_variants? hforms).length hvalues)
  apply expandClause_cases (motive := (·.Every p)) h
  case marked => exact hp.every_mark (by decide) h
  case dropped => exact fun reason => hp.every_dropped reason h
  case form => exact hform
  case joined =>
    -- there is at least one form
    intro forms hforms
    have hne := (Clause.forms_of_variants? hforms).ne_nil
    exact hp.joinDistinct (by simpa using hne) (List.forall_mem_map.2 (hform forms hforms))

/-- An argument stays, or it gets other text. -/
theorem expandArgument_cases (normalizers : List Normalizer) (a : Argument) :
    expandArgument normalizers a = a ∨
      ∃ l text, a = .literal l ∧ expandArgument normalizers a = .literal (.string text) := by
  cases a with
  | field name | identifier name => exact .inl rfl
  | literal l =>
    cases htext : l.text? with
    | none => exact .inl (by simp only [expandArgument_literal, htext])
    | some text =>
      simp only [expandArgument_literal, htext]
      split
      · exact .inl rfl
      · exact .inr ⟨l, _, rfl, rfl⟩

/-- Expansion keeps a shape. -/
theorem every_expandWith (hp : Shape p) (q : Query) (policy : Policy) (h : q.Every p) :
    (e.expandWith policy q).Every p := by
  revert h
  apply e.expandWith_induction (motive := fun _ q r => q.Every p → r.Every p)
  case junction =>
    intro policy kind cs ih h
    refine hp.joinDistinct ?_ ?_
    · rw [ne_eq, List.map_eq_nil_iff]
      exact hp.children_ne_nil h
    · rw [List.forall_mem_map]
      intro c hc
      have hchild : c.Every p := h.of_mem_children hc
      split
      · exact hchild
      · exact ih c hc hchild
  case not =>
    intro policy c ih h
    exact hp.every_not (ih (h.of_mem_children List.mem_cons_self))
  case group =>
    intro policy c _ h
    exact (hp.not_every_group h).elim
  case clause =>
    intro policy q clause hclause h
    exact every_expandClause hp h hclause
  case compare =>
    intro policy leaf _ h
    exact h
  case call =>
    intro policy call h
    rw [expandCall_eq]
    split
    · exact h
    · have hnode := (Query.every_leaf rfl).1 h
      exact (Query.every_leaf rfl).2 (hp.arguments hnode _ (expandArgument_cases _))
  case closed =>
    intro policy m note c _ h
    exact h
  case marked =>
    intro policy m note c hsealed _ ih h
    have hdrop : m ≠ .drop := by
      rintro rfl
      cases hsealed
    exact hp.every_remark hdrop h (ih (h.of_mem_children List.mem_cons_self))

end Expander

theorem Query.every_expand (hp : Shape p) {q : Query} (h : q.Every p) (catalog : Catalog)
    (config : Config) : (q.expand catalog config).Every p :=
  Expander.every_expandWith hp q {} h

end IndexQuery
