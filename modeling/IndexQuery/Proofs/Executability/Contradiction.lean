import IndexQuery.Proofs.Executability.Modes
import IndexQuery.Proofs.Executability.Recorded

/-! # Contradictions and negations

    A query that contradicts what is known of its fields is in error, and so is everything
    that it is part of: an error is an error beneath any number of negations, and no junction
    passes it over. Other states are not so lasting. A negation, above all, is answered by the
    index of a record alone.

    * `Classifier.stateWith_eq_error_iff`: negations have no influence on an error.
    * `Classifier.stateWith_eq_error_of_child`: the error of a child is one of its parent.
    * `Classifier.error_mem_states`: an error is recorded for some node if and only if it is
      reported for the query.
    * `Classifier.negatedExecutable_not_mem_states`: among all records no node is recorded to
      be answered as a negation.
    * `error_prevails`: both facts, and what the two modes have in common.
-/

namespace IndexQuery

/-- What is in error for one record is in error among all records. -/
theorem ExecState.Agrees.error {all one : ExecState} (h : Agrees all one) (hone : one = .error) :
    all = .error := by
  revert all one
  decide

namespace Classifier

variable {c : Classifier}

/-! ## Errors -/

/-- Whether a query is in error does not depend on the negations above it. -/
theorem stateWith_eq_error_iff (q : Query) (negated odd : Bool) :
    c.stateWith negated odd q = .error ↔ c.stateWith false false q = .error := by
  induction q using Query.induction generalizing negated odd with
  | junction kind cs ih =>
    rw [stateWith_junction, stateWith_junction, settled_eq_error, settled_eq_error,
      Combine.apply_eq_error, Combine.apply_eq_error, List.mem_map, List.mem_map]
    -- the children are combined in another way, but an error among them is one in either way
    constructor
    · intro ⟨q, hq, h⟩
      exact ⟨q, hq, (ih q hq negated false).1 h⟩
    · intro ⟨q, hq, h⟩
      exact ⟨q, hq, (ih q hq negated false).2 h⟩
  | not q ih =>
    rw [stateWith_not, stateWith_not, ih, ih (!false) (!false)]
  | compare leaf => rw [stateWith_compare, stateWith_compare, settled_eq_error, settled_eq_error]
  | call call => rw [stateWith_call, stateWith_call, settled_eq_error, settled_eq_error]
  | group q ih => rw [stateWith_group, stateWith_group, ih]
  | marked m note q ih =>
    rw [stateWith_marked, stateWith_marked, settled_eq_error, settled_eq_error]
    cases c.unitState? m (.marked m note q) q with
    | some s => rfl
    | none => exact ih negated false

/-- A query that is no unit is in error if one of its children is, from wherever the two are
    looked at. -/
theorem stateWith_eq_error_of_child {q child : Query} (hunit : c.isUnit q = false)
    (hchild : child ∈ q.children) {negated odd negated' odd' : Bool}
    (h : c.stateWith negated' odd' child = .error) : c.stateWith negated odd q = .error := by
  -- an error is one however many negations stand above
  have hbeneath : ∀ negated odd, c.stateWith negated odd child = .error := by
    intro negated odd
    rw [stateWith_eq_error_iff] at h ⊢
    exact h
  cases q with
  | junction kind cs =>
    rw [stateWith_junction, settled_eq_error, Combine.apply_eq_error, List.mem_map]
    exact ⟨child, hchild, hbeneath negated false⟩
  | not q =>
    obtain rfl := List.mem_singleton.1 hchild
    rw [stateWith_not]
    exact hbeneath _ _
  | group q =>
    obtain rfl := List.mem_singleton.1 hchild
    rw [stateWith_group]
    exact hbeneath _ _
  | marked m note q =>
    obtain rfl := List.mem_singleton.1 hchild
    have hnone : c.unitState? m (.marked m note child) child = none := by
      simpa [isUnit] using hunit
    rw [stateWith_marked, hnone, settled_eq_error]
    exact hbeneath negated false
  | compare leaf => cases hchild
  | call call => cases hchild

/-- An error is recorded for one of the nodes of a query if and only if the query is in
    error. -/
theorem error_mem_states (q : Query) (negated odd : Bool) :
    .error ∈ (c.classifyWith negated odd q).states ↔ c.stateWith negated odd q = .error := by
  have hrecorded : ∀ (q : Query) (negated odd : Bool),
      .error = c.recorded negated odd q ↔ c.stateWith negated odd q = .error := by
    intro q negated odd
    unfold recorded
    rw [eq_comm, stateWith_eq_error_iff, ← stateWith_eq_error_iff q negated odd]
  induction q using Query.induction_children generalizing negated odd with
  | h q ih =>
    cases hunit : c.isUnit q with
    | true =>
      -- a unit has one state for all of its nodes, of which there is one at least
      have hcount : q.nodeCount ≠ 0 := by
        rw [Query.nodeCount_eq]
        omega
      rw [c.states_of_isUnit hunit, List.mem_replicate, hrecorded]
      exact and_iff_right hcount
    | false =>
      rw [c.states_of_not_isUnit hunit, List.mem_cons, hrecorded, List.mem_flatMap]
      constructor
      · rintro (h | ⟨child, hchild, h⟩)
        · exact h
        · exact stateWith_eq_error_of_child hunit hchild ((ih child hchild _ _).1 h)
      · intro h
        exact .inl h

/-! ## Negations -/

/-- Among all records no node is recorded to be answered as a negation. -/
theorem negatedExecutable_not_mem_states {fields : FieldSets} (q : Query) (negated odd : Bool) :
    .negatedExecutable ∉ ((amongAll fields).classifyWith negated odd q).states := by
  have hrecorded : ∀ (q : Query) (negated odd : Bool),
      ExecState.negatedExecutable ≠ (amongAll fields).recorded negated odd q := by
    intro q negated odd heq
    exact (agrees_stateWith q negated (q.isLink && odd)).positive heq.symm
  induction q using Query.induction_children generalizing negated odd with
  | h q ih =>
    cases hunit : (amongAll fields).isUnit q with
    | true =>
      rw [states_of_isUnit _ hunit, List.mem_replicate]
      intro ⟨_, heq⟩
      exact hrecorded q negated odd heq
    | false =>
      rw [states_of_not_isUnit _ hunit, List.mem_cons, List.mem_flatMap]
      rintro (heq | ⟨child, hchild, hmem⟩)
      · exact hrecorded q negated odd heq
      · exact ih child hchild _ _ hmem

end Classifier

/-! ## Queries -/

/-- A query is in error if and only if an error is recorded for one of its nodes, and what is
    in error for one record is in error among all records. There no node is recorded to be
    answered as a negation. -/
theorem error_prevails (catalog : Catalog) (config : Config) (q : Query) :
    let all := (Classifier.ofCatalog catalog config .globalIndex).classify q
    let one := (Classifier.ofCatalog catalog config .fieldIndex).classify q
    (∀ mode, let r := (Classifier.ofCatalog catalog config mode).classify q
      r.state = .error ↔ .error ∈ r.states) ∧
      .negatedExecutable ∉ all.states ∧ (one.state = .error → all.state = .error) := by
  intro all one
  refine ⟨?_, Classifier.negatedExecutable_not_mem_states q false false, ?_⟩
  · intro mode r
    exact (Classifier.error_mem_states q false false).symm
  · intro hone
    have hagrees : ExecState.Agrees all.state one.state := Classifier.agrees_stateWith q false false
    exact hagrees.error hone

/-- `A` has index entries, and the values of `ONLY` are in the index alone. -/
def onlyCatalog : Catalog :=
  { fields := .ofList [("A", { indexed := true }), ("ONLY", ({} : FieldInfo).asIndexOnly)] }

/-- `A == 'a' || !(A != 'b' && !(ONLY == null))` -/
def onlyQuery : Query :=
  .disj [.compareWith .eq "A" (.string "a"),
    .not (.conj [.compareWith .ne "A" (.string "b"), .not (.compareWith .eq "ONLY" .null)])]

/-- The index alone cannot tell what has no value, beneath whatever negations it is asked. -/
theorem error_prevails_onlyQuery :
    let all := (Classifier.ofCatalog onlyCatalog {} .globalIndex).classify onlyQuery
    let one := (Classifier.ofCatalog onlyCatalog {} .fieldIndex).classify onlyQuery
    one.state = .error ∧ all.state = .error ∧ .negatedExecutable ∈ one.states ∧
      .negatedExecutable ∉ all.states := by
  obtain ⟨-, hnegated, herror⟩ := error_prevails onlyCatalog {} onlyQuery
  have hone : ((Classifier.ofCatalog onlyCatalog {} .fieldIndex).classify onlyQuery).state =
      .error := by decide +kernel
  have hmem : .negatedExecutable ∈
      ((Classifier.ofCatalog onlyCatalog {} .fieldIndex).classify onlyQuery).states := by
    decide +kernel
  exact ⟨hone, herror hone, hmem, hnegated⟩

end IndexQuery
