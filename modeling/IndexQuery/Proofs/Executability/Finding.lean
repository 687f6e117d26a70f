import IndexQuery.Proofs.Executability.Classification
import IndexQuery.Proofs.Query.Truth
import IndexQuery.Regex.Pattern

/-! # Queries that find their records

    The index of all records answers a query by what it finds, so that a query is
    executable there only if a part of it finds its records.

    * `Classifier.of_finds_leafState`: the comparisons that find something.
    * `Classifier.dropsPart_of_ignorable`: what asks for nothing has a dropped part.
    * `Classifier.odd_eq_false`: beneath an odd number of negations nothing is found, save
      by a query that is a negation again.
-/

namespace IndexQuery

/-! ## States of what finds its records -/

/-- The states of the queries that find their records, or are dropped and find none. -/
def ExecState.Finds (s : ExecState) : Prop := s = .executable ∨ s = .ignorable

instance (s : ExecState) : Decidable s.Finds := inferInstanceAs (Decidable (_ ∨ _))

theorem ExecState.Finds.ne_error {s : ExecState} (h : s.Finds) : s ≠ .error := by
  revert s
  decide

namespace Combine

theorem finds_of_join_allOrNone {a b : ExecState} (h : (allOrNone.join a b).Finds) :
    a.Finds ∧ b.Finds := by
  revert a b
  decide

theorem finds_of_join_allOrSome {a b : ExecState} (h : (allOrSome.join a b).Finds) :
    a.Finds ∨ b.Finds := by
  revert a b
  decide

/-- Where every child has to be executable, every child finds its records. -/
theorem finds_of_apply_allOrNone {states : List ExecState} (h : (allOrNone.apply states).Finds) :
    ∀ s ∈ states, s.Finds := by
  induction states with
  | nil => simp
  | cons s states ih =>
    rw [apply_cons] at h
    obtain ⟨hs, hrest⟩ := finds_of_join_allOrNone h
    exact List.forall_mem_cons.2 ⟨hs, ih hrest⟩

/-- Where one executable child is enough, one of the children finds the records. -/
theorem exists_finds_of_apply_allOrSome {states : List ExecState} (hne : states ≠ [])
    (h : (allOrSome.apply states).Finds) : ∃ s ∈ states, s.Finds := by
  induction states with
  | nil => exact absurd rfl hne
  | cons s states ih =>
    by_cases hrest : states = []
    · -- the last child is joined to what asks for nothing
      subst hrest
      have hs : s.Finds := by
        revert h s
        decide
      exact ⟨s, List.mem_cons_self, hs⟩
    · rw [apply_cons] at h
      rcases finds_of_join_allOrSome h with hs | hothers
      · exact ⟨s, List.mem_cons_self, hs⟩
      · obtain ⟨t, ht, hfinds⟩ := ih hrest hothers
        exact ⟨t, List.mem_cons_of_mem s ht, hfinds⟩

end Combine

/-! ## Queries to be compiled -/

/-- The queries whose plan follows from their state. -/
structure Query.Plannable (fields : FieldSets) (properties : PropertyTable) (q : Query) :
    Prop where
  filled : ∀ kind, .junction kind [] ∉ q.subtrees
  named : ∀ leaf, .compare leaf ∈ q.subtrees → leaf.field ≠ anyField ∧ leaf.field ≠ noField
  unlimited : ∀ m note child, .marked m note child ∈ q.subtrees →
    m ≠ .exceededValue ∧ m ≠ .exceededOr
  /-- Nothing is dropped beneath a negation. -/
  kept : ∀ child, .not child ∈ q.subtrees → ∀ note inner, .marked .drop note inner ∉ child.subtrees
  /-- The patterns for fields with index entries are well-formed. -/
  patterns : ∀ leaf, .compare leaf ∈ q.subtrees → leaf.op.isRegex = true →
    fields.indexed.contains leaf.field = true →
    ∀ text ∈ leaf.literal.text?, (Pattern.ofText? properties text).isSome = true

theorem Query.Plannable.child {fields : FieldSets} {properties : PropertyTable} {q child : Query}
    (h : q.Plannable fields properties) (hchild : child ∈ q.children) :
    child.Plannable fields properties where
  filled kind hp := h.filled kind (mem_subtrees_of_child hchild hp)
  named leaf hp := h.named leaf (mem_subtrees_of_child hchild hp)
  unlimited m note inner hp := h.unlimited m note inner (mem_subtrees_of_child hchild hp)
  kept inner hp := h.kept inner (mem_subtrees_of_child hchild hp)
  patterns leaf hp := h.patterns leaf (mem_subtrees_of_child hchild hp)

/-- Whether a part of the query is dropped. -/
def Query.DropsPart (q : Query) : Prop := ∃ note inner, .marked .drop note inner ∈ q.subtrees

theorem Query.DropsPart.of_child {q child : Query} (hchild : child ∈ q.children)
    (h : child.DropsPart) : q.DropsPart := by
  obtain ⟨note, inner, hdrop⟩ := h
  exact ⟨note, inner, mem_subtrees_of_child hchild hdrop⟩

/-! ## States among all records -/

namespace Classifier

variable {fields : FieldSets} {properties : PropertyTable}

theorem not_finds_byRecord (names : List String) : ¬ ((amongAll fields).byRecord names).Finds := by
  rcases (amongAll fields).byRecord_cases names with h | h <;> rw [h] <;> decide

theorem not_finds_unanswerable (field : String) :
    ¬ ((amongAll fields).unanswerable field).Finds := by
  rcases (amongAll fields).unanswerable_cases field with h | h <;> rw [h] <;> decide

/-- A field whose values are in the index alone has an error instead of what its index
    entries do not answer. -/
theorem leafState_eq_error {leaf : Comparison} (hany : leaf.field ≠ anyField)
    (hno : leaf.field ≠ noField) (honly : fields.indexOnly.contains leaf.field = true)
    (hnonEvent : fields.nonEvent.contains leaf.field = true)
    (hunanswered : ((amongAll fields).isIndexed leaf.field && !leaf.literal.isNull) = false) :
    (amongAll fields).leafState leaf = .error := by
  have hunanswerable : (amongAll fields).unanswerable leaf.field = .error := if_pos honly
  have hrecord : (amongAll fields).byRecord [leaf.field] = .error := by
    simp [byRecord, amongAll, hnonEvent]
  rw [leafState, if_neg hno, if_neg hany, fieldState, hunanswered]
  cases leaf.op with
  | eq | ne | regex => exact hunanswerable
  | lt | le | gt | ge | notRegex => exact hrecord

/-- Among all records, the comparisons that find something are equalities and patterns
    for fields with index entries. -/
theorem of_finds_leafState {leaf : Comparison} (hany : leaf.field ≠ anyField)
    (hno : leaf.field ≠ noField) (h : ((amongAll fields).leafState leaf).Finds) :
    (leaf.op = .eq ∨ leaf.op = .regex) ∧ fields.indexed.contains leaf.field = true ∧
      leaf.literal.isNull = false := by
  rw [leafState, if_neg hno, if_neg hany, fieldState] at h
  cases hop : leaf.op with
  | eq | regex =>
    simp only [hop] at h
    split at h
    · rename_i hindexed
      rw [Bool.and_eq_true, Bool.not_eq_true'] at hindexed
      exact ⟨by simp, hindexed⟩
    · exact absurd h (not_finds_unanswerable leaf.field)
  | ne =>
    simp only [hop, amongAll, reduceCtorEq, decide_false, Bool.and_false, Bool.false_eq_true,
      if_false] at h
    exact absurd h (not_finds_unanswerable leaf.field)
  | lt | le | gt | ge | notRegex =>
    simp only [hop] at h
    exact absurd h (not_finds_byRecord [leaf.field])

theorem not_ignorable_leafState {leaf : Comparison} (hany : leaf.field ≠ anyField)
    (hno : leaf.field ≠ noField) : (amongAll fields).leafState leaf ≠ .ignorable := by
  intro h
  obtain ⟨hop, hindexed, hnull⟩ := of_finds_leafState hany hno (.inr h)
  rw [leafState, if_neg hno, if_neg hany, fieldState] at h
  rcases hop with hop | hop <;>
    simp [hop, isIndexed, amongAll, hindexed, hnull] at h

/-- A range that finds its records is of a field with index entries. -/
theorem isIndexed_of_finds {field : String} (hno : field ≠ noField)
    (h : ExecState.Finds (if field = noField then .ignorable
      else if (amongAll fields).isIndexed field then .executable
      else (amongAll fields).byRecord [field])) : fields.indexed.contains field = true := by
  rw [if_neg hno] at h
  split at h
  · assumption
  · exact absurd h (not_finds_byRecord [field])

/-- Of the units only what is dropped asks for nothing. -/
theorem eq_drop_of_unitState? {m : Marker} {note : Option DropNote} {q : Query}
    (hq : (Query.marked m note q).Plannable fields properties)
    (h : (amongAll fields).unitState? m (.marked m note q) q = some .ignorable) : m = .drop := by
  cases m with
  | drop => rfl
  | bounded =>
    cases hb : (Query.marked .bounded note q).bounds? with
    | none => simp [unitState?, unit?, hb] at h
    | some b =>
      have hno : b.field ≠ noField := (hq.named b.lower (Query.mem_subtrees_of_bounds? hb).1).2
      rw [unitState?_bounded _ hb, Option.some.injEq, if_neg hno] at h
      split at h
      · cases h
      · exact absurd (.inr h) (not_finds_byRecord [b.field])
  | list | term | lenient | strict | delayed | exceededTerm | indexHole | exceededValue | exceededOr =>
    cases h
  | evaluationOnly => exact absurd (.inr (Option.some.inj h)) (not_finds_byRecord q.fields)

/-- A query that asks for nothing has a dropped part. -/
theorem dropsPart_of_ignorable {q : Query} {negated odd : Bool} (hq : q.Plannable fields properties)
    (h : (amongAll fields).stateWith negated odd q = .ignorable) : q.DropsPart := by
  induction q using Query.induction generalizing negated odd with
  | junction kind cs ih =>
    rw [stateWith_junction, settled_eq_ignorable, Combine.apply_eq_ignorable] at h
    cases cs with
    | nil => exact absurd (Query.self_mem_subtrees _) (hq.filled kind)
    | cons first rest =>
      -- none of the children asks for anything, so the first one does not
      have hfirst : first ∈ first :: rest := List.mem_cons_self
      have hstate := h _ (List.mem_map_of_mem hfirst)
      exact (ih first hfirst (hq.child hfirst) hstate).of_child hfirst
  | not q ih =>
    rw [stateWith_not] at h
    exact (ih (hq.child List.mem_cons_self) h).of_child List.mem_cons_self
  | compare leaf =>
    rw [stateWith_compare, settled_eq_ignorable] at h
    have hnamed := hq.named leaf (Query.self_mem_subtrees _)
    exact absurd h (not_ignorable_leafState hnamed.1 hnamed.2)
  | call call =>
    rw [stateWith_call, settled_eq_ignorable] at h
    cases h
  | group q ih =>
    rw [stateWith_group] at h
    exact (ih (hq.child List.mem_cons_self) h).of_child List.mem_cons_self
  | marked m note q ih =>
    rw [stateWith_marked, settled_eq_ignorable] at h
    cases hunit : (amongAll fields).unitState? m (.marked m note q) q with
    | some s =>
      rw [hunit, Option.getD_some] at h
      subst h
      obtain rfl := eq_drop_of_unitState? hq hunit
      exact ⟨note, q, Query.self_mem_subtrees _⟩
    | none =>
      rw [hunit, Option.getD_none] at h
      exact (ih (hq.child List.mem_cons_self) h).of_child List.mem_cons_self

/-- Among all records, no negation finds anything but what asks for nothing. -/
theorem eq_ignorable_of_settled {s : ExecState} (h : ((amongAll fields).settled true s).Finds) :
    s = .ignorable := by
  rcases h with h | h
  · exact absurd h (ExecMode.negate_globalIndex_ne_executable s)
  · exact (settled_eq_ignorable _).1 h

/-- What finds something and drops nothing, and is no chain of negations itself, stands
    right beneath an even number of them. -/
theorem odd_eq_false {q : Query} {odd : Bool} {s : ExecState} (hq : q.Plannable fields properties)
    (hkept : odd = true → ¬ q.DropsPart)
    (hsettled : (amongAll fields).stateWith odd odd q = (amongAll fields).settled odd s)
    (hstate : ((amongAll fields).stateWith odd odd q).Finds) : odd = false := by
  cases odd with
  | false => rfl
  | true =>
    -- only what asks for nothing is found beneath a negation, and nothing is dropped here
    rw [hsettled] at hstate
    have hignorable := eq_ignorable_of_settled hstate
    rw [hignorable] at hsettled
    exact absurd (dropsPart_of_ignorable hq hsettled) (hkept rfl)

end Classifier

end IndexQuery
