import IndexQuery.Proofs.Expansion.Form
import IndexQuery.Proofs.Expansion.Join

/-! # Settled queries

    A query is settled when expansion leaves it as it is, and when, if it is a
    junction, its operands can move into an outer junction of the same kind.

    * `Expander.Settled`: what expansion leaves behind.
    * `Expander.Joinable`: what can be joined, since it is settled or covered by the others.
    * `Expander.settled_joinDistinct`: joining leaves a settled query behind.

    Neither flattening nor dropping repetitions may separate a covered clause from
    the sibling that covers it. Both keep every clause somewhere among the siblings,
    and being covered only asks for siblings: `isCovered_mono`.
-/

namespace IndexQuery

namespace Expander

variable {e : Expander} {p : Policy} {kind : Junction}

/-! ## Covered clauses -/

/-- A clause is covered among other siblings as well, if they have all the clauses. -/
theorem isCovered_mono {cs ds : List Query} {c : Query}
    (hclauses : ∀ t ∈ cs, (e.clause? t).isSome = true → t ∈ ds)
    (h : e.isCovered kind cs c = true) : e.isCovered kind ds c = true := by
  have hsubset : ∀ s ∈ e.clausesOf kind cs, s ∈ e.clausesOf kind ds := by
    intro s hs
    obtain ⟨t, ht, hclause, hkind⟩ := mem_clausesOf.1 hs
    exact mem_clausesOf.2 ⟨t, hclauses t ht (by rw [hclause]; rfl), hclause, hkind⟩
  obtain ⟨clause, hclause, hkind, hcovered⟩ := isCovered_iff.1 h
  obtain ⟨s, hs, forms, hforms, hall, hcontent⟩ := mem_covered.1 hcovered
  refine isCovered_iff.2 ⟨clause, hclause, hkind, mem_covered.2 ⟨s, hsubset s hs, forms, hforms,
    ?_, hcontent⟩⟩
  intro values hvalues
  obtain ⟨t, ht, hsays⟩ := hall values hvalues
  exact ⟨t, hsubset t ht, hsays⟩

/-- A clause is no junction. -/
theorem isOperand_of_clause? {q : Query} {clause : Clause} (h : e.clause? q = some clause)
    (kind : Junction) : q.IsOperand kind := by
  rintro cs rfl
  cases h

theorem isOperand_of_isCovered {cs : List Query} {c : Query} (h : e.isCovered kind cs c = true) :
    c.IsOperand kind := by
  obtain ⟨clause, hclause, -⟩ := isCovered_iff.1 h
  exact isOperand_of_clause? hclause kind

theorem joined_of_isCovered {cs : List Query} {c : Query} (h : e.isCovered kind cs c = true) :
    c.Joined := by
  obtain ⟨clause, hclause, -⟩ := isCovered_iff.1 h
  exact Query.joined_of_forall_ne (isOperand_of_clause? hclause)

/-- A clause whose only form is itself stays. -/
theorem expandWith_of_variants? {q : Query} {clause : Clause} (hclause : e.clause? q = some clause)
    (hforms : e.variants? clause = some [clause.values]) : e.expandWith p q = q := by
  rw [expandWith_of_clause? hclause, expandClause_eq, hforms]
  exact if_pos rfl

/-- A clause that covers itself without any sibling stays. -/
theorem expandWith_of_isCovered_alone {cs : List Query} {c : Query} (halone : ∀ t ∈ cs, t = c)
    (h : e.isCovered kind cs c = true) : e.expandWith p c = c := by
  obtain ⟨clause, hclause, -, hcovered⟩ := isCovered_iff.1 h
  have hsame : ∀ s ∈ e.clausesOf kind cs, s = clause := by
    intro s hs
    obtain ⟨t, ht, ht', -⟩ := mem_clausesOf.1 hs
    rw [halone t ht, hclause] at ht'
    exact (Option.some.inj ht').symm
  -- the clause has to cover itself, so all of its forms are what it says
  obtain ⟨s, hs, forms, hforms, hall, values, hvalues, -⟩ := mem_covered.1 hcovered
  rw [hsame s hs] at hforms hall
  have hself : ∀ form ∈ forms, form = clause.values := by
    intro form hform
    obtain ⟨t, ht, hsays⟩ := hall form hform
    rw [hsame t ht] at hsays
    exact (Prod.mk.inj hsays).2.symm
  have hmem : clause.values ∈ forms := by
    rw [← hself values hvalues]
    exact hvalues
  have hsingle : forms = [clause.values] :=
    eq_singleton_of_nodup (Clause.forms_of_variants? hforms).nodup hmem hself
  rw [hsingle] at hforms
  exact expandWith_of_variants? hclause hforms

/-! ## Settled queries -/

/-- Operands of a junction that expansion leaves as they are. -/
def Steady (e : Expander) (p : Policy) (kind : Junction) (cs : List Query) : Prop :=
  ∀ c ∈ cs, c.IsOperand kind ∧ (e.expandWith p c = c ∨ e.isCovered kind cs c = true)

/-- A query that expansion leaves as it is, and whose operands can move into an outer
    junction of the same kind. -/
structure Settled (e : Expander) (p : Policy) (q : Query) : Prop where
  fixed : e.expandWith p q = q
  steady : ∀ kind cs, q = .junction kind cs → e.Steady p kind cs
  nodup : ∀ kind cs, q = .junction kind cs → cs.Nodup
  length : ∀ kind cs, q = .junction kind cs → cs.length ≠ 1

/-- A query other than a junction is settled if it stays. -/
theorem settled_of_fixed {q : Query} (hq : ∀ kind cs, q ≠ .junction kind cs)
    (h : e.expandWith p q = q) : e.Settled p q where
  fixed := h
  steady kind cs hcs := absurd hcs (hq kind cs)
  nodup kind cs hcs := absurd hcs (hq kind cs)
  length kind cs hcs := absurd hcs (hq kind cs)

/-- A junction of steady operands, of which there are none or several, is settled. -/
theorem settled_junction {cs : List Query} (hsteady : e.Steady p kind cs) (hnodup : cs.Nodup)
    (hlength : cs.length ≠ 1) : e.Settled p (.junction kind cs) := by
  have hstay : (cs.map fun c => if e.isCovered kind cs c then c else e.expandWith p c) = cs := by
    have hself : ∀ c ∈ cs, (if e.isCovered kind cs c then c else e.expandWith p c) = id c := by
      intro c hc
      split
      · rfl
      · rename_i hcovered
        exact (hsteady c hc).2.resolve_right hcovered
    rw [List.map_congr_left hself, List.map_id]
  constructor
  case fixed =>
    rw [expandWith_junction, hstay]
    exact Query.joinDistinct_of_isOperand (fun c hc => (hsteady c hc).1) hnodup hlength
  all_goals
    intro kind' cs' h
    cases h
    assumption

/-! ## Joining -/

/-- A query that can be joined: it is settled, or a clause covered by its siblings. -/
def Joinable (e : Expander) (p : Policy) (kind : Junction) (rs : List Query) (r : Query) : Prop :=
  e.Settled p r ∨ e.isCovered kind rs r = true

theorem Joinable.settled {rs cs : List Query} (h : e.Joinable p kind rs (.junction kind cs)) :
    e.Settled p (.junction kind cs) := by
  rcases h with hsettled | hcovered
  · exact hsettled
  · exact absurd rfl (isOperand_of_isCovered hcovered cs)

/-- The operands of joinable queries. -/
theorem mem_flatMap_operands {rs : List Query} {c : Query}
    (hc : c ∈ rs.flatMap (Query.operands kind)) :
    (c ∈ rs ∧ c.IsOperand kind) ∨
      ∃ cs, .junction kind cs ∈ rs ∧ c ∈ cs ∧ ∀ t ∈ cs, t ∈ rs.flatMap (Query.operands kind) := by
  obtain ⟨r, hr, hcr⟩ := List.mem_flatMap.1 hc
  rcases Query.mem_operands hcr with ⟨rfl, hoperand⟩ | ⟨cs, rfl, hcs⟩
  · exact .inl ⟨hr, hoperand⟩
  · refine .inr ⟨cs, hr, hcs, ?_⟩
    intro t ht
    exact List.mem_flatMap.2 ⟨_, hr, by simpa [Query.operands] using ht⟩

theorem isCovered_flatMap {rs : List Query} {c : Query} (h : e.isCovered kind rs c = true) :
    e.isCovered kind (rs.flatMap (Query.operands kind)) c = true := by
  apply isCovered_mono _ h
  intro t ht hclause
  refine List.mem_flatMap.2 ⟨t, ht, ?_⟩
  rw [Query.operands_of_isOperand]
  · exact List.mem_singleton.2 rfl
  · rintro cs rfl
    cases hclause

/-- Flattening keeps operands steady. -/
theorem steady_flatMap {rs : List Query} (h : ∀ r ∈ rs, e.Joinable p kind rs r) :
    e.Steady p kind (rs.flatMap (Query.operands kind)) := by
  intro c hc
  rcases mem_flatMap_operands hc with ⟨hr, hoperand⟩ | ⟨cs, hr, hcs, hsubset⟩
  · rcases h c hr with hsettled | hcovered
    · exact ⟨hoperand, .inl hsettled.fixed⟩
    · exact ⟨hoperand, .inr (isCovered_flatMap hcovered)⟩
  · obtain ⟨hoperand, hstays⟩ := (h _ hr).settled.steady kind cs rfl c hcs
    exact ⟨hoperand, hstays.imp_right (isCovered_mono fun t ht _ => hsubset t ht)⟩

/-- What can be joined is joined already. -/
theorem Joinable.joined {rs : List Query} {r : Query} (h : e.Joinable p kind rs r) : r.Joined := by
  rcases h with hsettled | hcovered
  · exact ⟨fun k cs hcs c hc => (hsettled.steady k cs hcs c hc).1, hsettled.nodup, hsettled.length⟩
  · exact joined_of_isCovered hcovered

/-- Joining settled queries and covered clauses is settled. -/
theorem settled_joinDistinct {rs : List Query} (h : ∀ r ∈ rs, e.Joinable p kind rs r) :
    e.Settled p (.joinDistinct kind rs) := by
  have hsteady := steady_flatMap h
  rcases Query.joinDistinct_cases kind fun r hr => (h r hr).joined with
    ⟨r, hr, heq, -, halone⟩ | ⟨heq, hlength⟩
  · -- what remains alone is settled, or was covered and has no siblings
    rw [heq]
    rcases h r hr with hsettled | hcovered
    · exact hsettled
    · obtain ⟨clause, hclause, -⟩ := isCovered_iff.1 hcovered
      exact settled_of_fixed (isOperand_of_clause? hclause)
        (expandWith_of_isCovered_alone halone (isCovered_flatMap hcovered))
  · rw [heq]
    refine settled_junction ?_ (nodup_distinct _) hlength
    intro c hc
    obtain ⟨hoperand, hstays⟩ := hsteady c (mem_distinct.1 hc)
    exact ⟨hoperand, hstays.imp_right (isCovered_mono fun t ht _ => mem_distinct.2 ht)⟩

end Expander

end IndexQuery
