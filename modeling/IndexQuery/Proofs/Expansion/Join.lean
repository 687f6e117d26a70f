import IndexQuery.Expansion.Basic
import IndexQuery.Proofs.Query.Truth

/-! # Joining without repetitions

    Where the operands are joined queries themselves, joining them makes a junction of all
    their operands, each of them once, unless there is just one.

    * `Query.Joined`: a query that joining can leave behind.
    * `Query.joinDistinct_cases`: what becomes of joined queries.
    * `Query.mem_operands_joinDistinct`: no operand is lost, and none comes in.
-/

namespace IndexQuery

namespace Query

variable {kind : Junction} {q c : Query} {cs rs : List Query}

theorem joinDistinct_of_isOperand (h : ∀ c ∈ cs, c.IsOperand kind) (hnodup : cs.Nodup)
    (hlength : cs.length ≠ 1) : joinDistinct kind cs = .junction kind cs := by
  rw [joinDistinct, join_of_isOperand h hlength]
  simp only [distinct_of_nodup hnodup, join_of_isOperand h hlength]

/-- If the query is a junction, it has not just one operand, its operands are different, and
    none is a junction of its kind. -/
structure Joined (q : Query) : Prop where
  operands : ∀ kind cs, q = .junction kind cs → ∀ c ∈ cs, c.IsOperand kind
  nodup : ∀ kind cs, q = .junction kind cs → cs.Nodup
  length : ∀ kind cs, q = .junction kind cs → cs.length ≠ 1

/-- A query that is no junction is joined. -/
theorem joined_of_forall_ne (h : ∀ kind cs, q ≠ .junction kind cs) : q.Joined where
  operands kind cs hcs := absurd hcs (h kind cs)
  nodup kind cs hcs := absurd hcs (h kind cs)
  length kind cs hcs := absurd hcs (h kind cs)

/-- The operands of joined queries are no junctions of the kind. -/
theorem isOperand_of_mem_flatMap (h : ∀ r ∈ rs, r.Joined)
    (hc : c ∈ rs.flatMap (Query.operands kind)) : c.IsOperand kind := by
  obtain ⟨r, hr, hcr⟩ := List.mem_flatMap.1 hc
  rcases mem_operands hcr with ⟨rfl, hoperand⟩ | ⟨cs, rfl, hcs⟩
  · exact hoperand
  · exact (h _ hr).operands kind cs rfl c hcs

/-- An operand without others was there on its own, for a joined query does not have a single
    operand. -/
theorem mem_of_alone (h : ∀ r ∈ rs, r.Joined) (hc : c ∈ rs.flatMap (Query.operands kind))
    (halone : ∀ d ∈ rs.flatMap (Query.operands kind), d = c) : c ∈ rs := by
  obtain ⟨r, hr, hcr⟩ := List.mem_flatMap.1 hc
  rcases mem_operands hcr with ⟨rfl, -⟩ | ⟨cs, rfl, hcs⟩
  · exact hr
  · have hsame : ∀ d ∈ cs, d = c := by
      intro d hd
      exact halone d (List.mem_flatMap.2 ⟨_, hr, by simpa [Query.operands] using hd⟩)
    have hsingle : cs = [c] := eq_singleton_of_nodup ((h _ hr).nodup kind cs rfl) hcs hsame
    exact absurd (by rw [hsingle]; rfl) ((h _ hr).length kind cs rfl)

/-- Dropping repetitions from a joined query changes nothing. -/
theorem joinDistinct_of_joined (hjoin : join kind rs = q) (h : q.Joined) :
    joinDistinct kind rs = q := by
  rw [joinDistinct, hjoin]
  cases q with
  | junction kind' cs =>
    dsimp only
    rw [distinct_of_nodup (h.nodup kind' cs rfl),
      join_of_isOperand (h.operands kind' cs rfl) (h.length kind' cs rfl)]
  | _ => rfl

/-- Joined queries become a junction of their operands, or one of them remains that is all
    there is. -/
theorem joinDistinct_cases (kind : Junction) (h : ∀ r ∈ rs, r.Joined) :
    (∃ r ∈ rs, joinDistinct kind rs = r ∧ r ∈ rs.flatMap (Query.operands kind) ∧
        ∀ c ∈ rs.flatMap (Query.operands kind), c = r) ∨
      joinDistinct kind rs = .junction kind (distinct (rs.flatMap (Query.operands kind))) ∧
        (distinct (rs.flatMap (Query.operands kind))).length ≠ 1 := by
  have hoperands : ∀ c ∈ rs.flatMap (Query.operands kind), c.IsOperand kind :=
    fun c hc => isOperand_of_mem_flatMap h hc
  -- joining flattens and leaves out a junction around one operand; both are done again
  -- when the repetitions are dropped
  by_cases hsingle : ∃ c, rs.flatMap (Query.operands kind) = [c]
  · obtain ⟨c, hflat⟩ := hsingle
    have hmem : c ∈ rs.flatMap (Query.operands kind) := by
      rw [hflat]
      exact List.mem_cons_self
    have halone : ∀ d ∈ rs.flatMap (Query.operands kind), d = c := by
      rw [hflat]
      exact fun d hd => List.mem_singleton.1 hd
    have hjoin : join kind rs = c := by
      unfold join
      rw [hflat]
    have hc : c ∈ rs := mem_of_alone h hmem halone
    exact .inl ⟨c, hc, joinDistinct_of_joined hjoin (h c hc), hmem, halone⟩
  · have hjoin : join kind rs = .junction kind (rs.flatMap (Query.operands kind)) := by
      unfold join
      split
      · rename_i c hflat
        exact absurd ⟨c, hflat⟩ hsingle
      · rfl
    have hdistinct : ∀ c ∈ distinct (rs.flatMap (Query.operands kind)), c.IsOperand kind :=
      fun c hc => hoperands c (mem_distinct.1 hc)
    have hdrop : joinDistinct kind rs =
        join kind (distinct (rs.flatMap (Query.operands kind))) := by
      rw [joinDistinct, hjoin]
    rw [hdrop]
    -- repetitions of a single operand leave it without others
    by_cases hlength : (distinct (rs.flatMap (Query.operands kind))).length = 1
    · obtain ⟨c, hc⟩ := List.length_eq_one_iff.1 hlength
      have hmem : c ∈ rs.flatMap (Query.operands kind) := mem_distinct.1 (by simp [hc])
      have halone : ∀ d ∈ rs.flatMap (Query.operands kind), d = c := by
        intro d hd
        have hd' := mem_distinct.2 hd
        rw [hc] at hd'
        exact List.mem_singleton.1 hd'
      refine .inl ⟨c, mem_of_alone h hmem halone, ?_, hmem, halone⟩
      rw [hc, join_singleton (hoperands c hmem)]
    · exact .inr ⟨join_of_isOperand hdistinct hlength, hlength⟩

/-- Joining leaves a joined query behind. -/
theorem joined_joinDistinct (h : ∀ r ∈ rs, r.Joined) : (joinDistinct kind rs).Joined := by
  rcases joinDistinct_cases kind h with ⟨r, hr, heq, -, -⟩ | ⟨heq, hlength⟩
  · rw [heq]
    exact h r hr
  · rw [heq]
    constructor
    all_goals
      intro kind' cs hcs
      cases hcs
    · exact fun c hc => isOperand_of_mem_flatMap h (mem_distinct.1 hc)
    · exact nodup_distinct _
    · exact hlength

/-- The operands of joined queries are those of what they are joined to. -/
theorem mem_operands_joinDistinct (h : ∀ r ∈ rs, r.Joined) :
    c ∈ (joinDistinct kind rs).operands kind ↔ ∃ r ∈ rs, c ∈ r.operands kind := by
  rw [← List.mem_flatMap]
  rcases joinDistinct_cases kind h with ⟨r, hr, heq, hmem, halone⟩ | ⟨heq, -⟩
  · rw [heq, operands_of_isOperand (isOperand_of_mem_flatMap h hmem), List.mem_singleton]
    constructor
    · rintro rfl
      exact hmem
    · exact halone c
  · rw [heq, Query.operands, if_pos rfl, mem_distinct]

/-! ## What is beneath -/

variable {P : Query → Prop} (hjunction : ∀ kind cs, P (.junction kind cs))

include hjunction

/-- What holds of all junctions, and of everything beneath the operands, holds of everything
    beneath what they are joined to. -/
theorem forall_subtrees_join (h : ∀ c ∈ cs, ∀ r ∈ c.subtrees, P r) :
    ∀ r ∈ (join kind cs).subtrees, P r := by
  have hflat : ∀ c ∈ cs.flatMap (Query.operands kind), ∀ r ∈ c.subtrees, P r := by
    intro c hc
    obtain ⟨q, hq, hcq⟩ := List.mem_flatMap.1 hc
    rcases mem_operands hcq with ⟨rfl, -⟩ | ⟨ds, rfl, hds⟩
    · exact h c hq
    · exact fun r hr => h _ hq r (mem_subtrees_of_child hds hr)
  unfold join
  split
  · rename_i q hsingle
    rw [hsingle] at hflat
    exact hflat q List.mem_cons_self
  · exact forall_subtrees_iff.2 ⟨hjunction _ _, hflat⟩

theorem forall_subtrees_joinDistinct (h : ∀ c ∈ cs, ∀ r ∈ c.subtrees, P r) :
    ∀ r ∈ (joinDistinct kind cs).subtrees, P r := by
  have hjoin : ∀ r ∈ (join kind cs).subtrees, P r := forall_subtrees_join hjunction h
  unfold joinDistinct
  split
  · rename_i kind' ds hds
    rw [hds] at hjoin
    apply forall_subtrees_join hjunction
    exact fun c hc => (forall_subtrees_iff.1 hjoin).2 c (mem_distinct.1 hc)
  · exact hjoin

end Query

end IndexQuery
