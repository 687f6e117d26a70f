import IndexQuery.Proofs.Executability.Classification
import IndexQuery.Proofs.Query.Truth

/-! # The two modes compared

    The index of a record answers what the index of all records answers, and negations
    besides. So one expects of a query the better state there. Most queries have it:

    * `Classifier.agrees_stateWith`: the one exception is a query that is `executable`
      among all records and `partially` so for one record.
    * `Classifier.better_stateWith`: that takes a child which the index of the record
      resolves in some branches only. Beside a child that finds the records it would be
      passed over if none of its branches were resolved.
    * `noWorse_or_takesHalf`: both facts, of the states of a query.
-/

namespace IndexQuery

namespace ExecState

/-- How much a query leaves to the record, none for a query that asks for nothing. -/
def rank? : ExecState → Option Nat
  | .executable => some 0
  | .negatedExecutable => some 1
  | .partially => some 2
  | .nonExecutable => some 3
  | .error => some 4
  | .ignorable => none

/-- Whether the one state leaves no more to the record than the other, where both ask
    for something. -/
def NoWorse (s t : ExecState) : Prop := ∀ m ∈ s.rank?, ∀ n ∈ t.rank?, m ≤ n

instance (s t : ExecState) : Decidable (s.NoWorse t) :=
  inferInstanceAs (Decidable (∀ m ∈ s.rank?, ∀ n ∈ t.rank?, m ≤ n))

/-- What the state among all records and the state for one record have in common, for
    any query. -/
structure Agrees (all one : ExecState) : Prop where
  /-- Negations are not answered among all records. -/
  positive : all ≠ .negatedExecutable
  ignorable : all = .ignorable ↔ one = .ignorable
  order : one.NoWorse all ∨ all = .executable ∧ one = .partially

instance (all one : ExecState) : Decidable (Agrees all one) :=
  decidable_of_iff (all ≠ .negatedExecutable ∧ (all = .ignorable ↔ one = .ignorable) ∧
      (one.NoWorse all ∨ all = .executable ∧ one = .partially))
    ⟨fun ⟨h₁, h₂, h₃⟩ => ⟨h₁, h₂, h₃⟩, fun h => ⟨h.positive, h.ignorable, h.order⟩⟩

theorem Agrees.join {combine : Combine} {all one all' one' : ExecState} (h : Agrees all one)
    (h' : Agrees all' one') : Agrees (combine.join all all') (combine.join one one') := by
  revert all one all' one'
  cases combine <;> decide +kernel

/-- The state among all records, and for one record, of a child that only the index of
    the record resolves in some of its branches. -/
def HalfResolved (all one : ExecState) : Prop := all = .nonExecutable ∧ one = .partially

instance (all one : ExecState) : Decidable (HalfResolved all one) :=
  inferInstanceAs (Decidable (_ ∧ _))

/-- The states that agree without exception. -/
structure Better (all one : ExecState) : Prop extends Agrees all one where
  noWorse : one.NoWorse all

instance (all one : ExecState) : Decidable (Better all one) :=
  decidable_of_iff (Agrees all one ∧ one.NoWorse all)
    ⟨fun ⟨h, h'⟩ => ⟨h, h'⟩, fun h => ⟨h.toAgrees, h.noWorse⟩⟩

theorem better_self {s : ExecState} (h : s ≠ .negatedExecutable) : Better s s := by
  revert s
  decide

theorem Better.join_allOrNone {all one all' one' : ExecState} (h : Better all one)
    (h' : Better all' one') :
    Better (Combine.allOrNone.join all all') (Combine.allOrNone.join one one') := by
  revert all one all' one'
  decide +kernel

/-- Where one child is enough, a child that is resolved in some branches does harm. -/
theorem Better.join_allOrSome {all one all' one' : ExecState}
    (h : Better all one ∧ ¬ HalfResolved all one) (h' : Better all' one' ∧ ¬ HalfResolved all' one') :
    Better (Combine.allOrSome.join all all') (Combine.allOrSome.join one one') ∧
      ¬ HalfResolved (Combine.allOrSome.join all all') (Combine.allOrSome.join one one') := by
  revert all one all' one'
  decide +kernel

theorem Agrees.negate {all one : ExecState} (h : Agrees all one) :
    Agrees (ExecMode.globalIndex.negate all) (ExecMode.fieldIndex.negate one) := by
  revert all one
  decide

/-- The index of the record answers negations, that of all records leaves them. -/
theorem Better.negate {all one : ExecState} (h : Better all one) :
    Better (ExecMode.globalIndex.negate all) (ExecMode.fieldIndex.negate one) := by
  revert all one
  decide

end ExecState

namespace Classifier

variable {fields : FieldSets}

theorem agrees_settled {all one : ExecState} (odd : Bool) (h : ExecState.Agrees all one) :
    ExecState.Agrees ((amongAll fields).settled odd all) ((forOne fields).settled odd one) := by
  cases odd with
  | false => exact h
  | true => exact h.negate

theorem better_settled {all one : ExecState} (odd : Bool) (h : ExecState.Better all one) :
    ExecState.Better ((amongAll fields).settled odd all) ((forOne fields).settled odd one) := by
  cases odd with
  | false => exact h
  | true => exact h.negate

/-! ## Leaves and units -/

/-- A unit has one state, whichever index is asked. -/
theorem unitState?_forOne (m : Marker) (whole q : Query) :
    (forOne fields).unitState? m whole q = (amongAll fields).unitState? m whole q := rfl

theorem better_of_unitState? {m : Marker} {whole q : Query} {s : ExecState}
    (h : (amongAll fields).unitState? m whole q = some s) : ExecState.Better s s := by
  apply ExecState.better_self
  rintro rfl
  exact (amongAll fields).unitState?_ne_negatedExecutable h

/-- The index of the record answers what differs from a value, if the field has entries. -/
theorem better_fieldState (leaf : Comparison) :
    ExecState.Better ((amongAll fields).fieldState leaf) ((forOne fields).fieldState leaf) := by
  have hunanswerable : (amongAll fields).unanswerable leaf.field ≠ .negatedExecutable := by
    rcases (amongAll fields).unanswerable_cases leaf.field with h | h <;> rw [h] <;> decide
  have hrecord : (amongAll fields).byRecord [leaf.field] ≠ .negatedExecutable := by
    rcases (amongAll fields).byRecord_cases [leaf.field] with h | h <;> rw [h] <;> decide
  cases hop : leaf.op with
  | eq | regex =>
    have hsame : (forOne fields).fieldState leaf = (amongAll fields).fieldState leaf := by
      simp only [fieldState, hop]
      rfl
    rw [hsame]
    apply ExecState.better_self
    simp only [fieldState, hop]
    split
    · decide
    · exact hunanswerable
  | ne =>
    -- the modes differ in what a negative equality can ask of the index
    have hall : (amongAll fields).fieldState leaf = (amongAll fields).unanswerable leaf.field := by
      simp [fieldState, hop, amongAll]
    have hone : (forOne fields).fieldState leaf =
        if (forOne fields).isIndexed leaf.field && !leaf.literal.isNull then .negatedExecutable
        else (amongAll fields).unanswerable leaf.field := by
      simp only [fieldState, hop, forOne, decide_true, Bool.and_true]
      rfl
    rw [hall, hone]
    split
    · rcases (amongAll fields).unanswerable_cases leaf.field with h | h <;> rw [h] <;> decide
    · exact ExecState.better_self hunanswerable
  | lt | le | gt | ge | notRegex =>
    have hsame : (forOne fields).fieldState leaf = (amongAll fields).fieldState leaf := by
      simp only [fieldState, hop]
      rfl
    rw [hsame]
    apply ExecState.better_self
    simp only [fieldState, hop]
    exact hrecord

theorem better_leafState (leaf : Comparison) :
    ExecState.Better ((amongAll fields).leafState leaf) ((forOne fields).leafState leaf) := by
  unfold leafState
  split
  · exact ExecState.better_self (by decide)
  · split
    · -- a term without a field is judged alike
      split
      · split <;> exact ExecState.better_self (by decide)
      · split <;> exact ExecState.better_self (by decide)
      · exact ExecState.better_self (by decide)
    · exact better_fieldState leaf

/-! ## Trees -/

/-- The states agree, save for a query that is executable among all records and partly
    so for one record. -/
theorem agrees_stateWith (q : Query) (negated odd : Bool) :
    ExecState.Agrees ((amongAll fields).stateWith negated odd q)
      ((forOne fields).stateWith negated odd q) := by
  induction q using Query.induction generalizing negated odd with
  | junction kind cs ih =>
    rw [stateWith_junction, stateWith_junction]
    apply agrees_settled
    exact Combine.apply_rel (by decide) (fun _ _ _ _ h h' => h.join h') fun q hq => ih q hq negated false
  | not q ih =>
    rw [stateWith_not, stateWith_not]
    exact ih (!negated) (!odd)
  | compare leaf =>
    rw [stateWith_compare, stateWith_compare]
    exact agrees_settled odd (better_leafState leaf).toAgrees
  | call call =>
    rw [stateWith_call, stateWith_call]
    exact agrees_settled odd (by decide)
  | group q ih =>
    rw [stateWith_group, stateWith_group]
    exact ih negated odd
  | marked m note q ih =>
    rw [stateWith_marked, stateWith_marked, unitState?_forOne]
    apply agrees_settled
    cases hunit : (amongAll fields).unitState? m (.marked m note q) q with
    | some s => exact (better_of_unitState? hunit).toAgrees
    | none => exact ih negated false

variable (fields) in
mutual

/-- Whether a junction for which one executable child is enough takes in a child that
    only the index of the record resolves in some of its branches. -/
def takesHalfResolved (negated : Bool) : Query → Bool
  | .junction kind cs =>
    (Combine.ofJunction kind negated = .allOrSome && cs.any fun q =>
      ExecState.HalfResolved ((amongAll fields).stateWith negated false q)
        ((forOne fields).stateWith negated false q)) ||
      takesHalfResolvedAmong negated cs
  | .not q => takesHalfResolved (!negated) q
  | .group q => takesHalfResolved negated q
  | .compare _ | .call _ => false
  | .marked m note q =>
    ((amongAll fields).unitState? m (.marked m note q) q).isNone && takesHalfResolved negated q

/-- Whether one of several queries has such a junction. -/
def takesHalfResolvedAmong (negated : Bool) : List Query → Bool
  | [] => false
  | q :: rest => takesHalfResolved negated q || takesHalfResolvedAmong negated rest

end

theorem takesHalfResolvedAmong_eq_any (negated : Bool) (cs : List Query) :
    takesHalfResolvedAmong fields negated cs = cs.any (takesHalfResolved fields negated) := by
  induction cs with
  | nil => rfl
  | cons q cs ih => rw [takesHalfResolvedAmong, ih, List.any_cons]

/-- Where no junction takes in a half-resolved child, the state for one record is no worse. -/
theorem better_stateWith (q : Query) (negated odd : Bool)
    (h : takesHalfResolved fields negated q = false) :
    ExecState.Better ((amongAll fields).stateWith negated odd q)
      ((forOne fields).stateWith negated odd q) := by
  induction q using Query.induction generalizing negated odd with
  | junction kind cs ih =>
    rw [takesHalfResolved, takesHalfResolvedAmong_eq_any, Bool.or_eq_false_iff,
      List.any_eq_false] at h
    obtain ⟨hhere, hbelow⟩ := h
    have hchild : ∀ q ∈ cs, ExecState.Better ((amongAll fields).stateWith negated false q)
        ((forOne fields).stateWith negated false q) := by
      intro q hq
      exact ih q hq negated false (Bool.eq_false_iff.2 (hbelow q hq))
    rw [stateWith_junction, stateWith_junction]
    apply better_settled
    cases hcombine : Combine.ofJunction kind negated with
    | allOrNone =>
      exact Combine.apply_rel (by decide) (fun _ _ _ _ h h' => h.join_allOrNone h') hchild
    | allOrSome =>
      have hhalf : ∀ q ∈ cs, ¬ ExecState.HalfResolved ((amongAll fields).stateWith negated false q)
          ((forOne fields).stateWith negated false q) := by
        simpa [hcombine] using hhere
      -- only together are the two relations kept by a join
      exact (Combine.apply_rel
        (r := fun all one => ExecState.Better all one ∧ ¬ ExecState.HalfResolved all one)
        (by decide) (fun _ _ _ _ h h' => ExecState.Better.join_allOrSome h h')
        fun q hq => ⟨hchild q hq, hhalf q hq⟩).1
  | not q ih =>
    rw [takesHalfResolved] at h
    rw [stateWith_not, stateWith_not]
    exact ih (!negated) (!odd) h
  | compare leaf =>
    rw [stateWith_compare, stateWith_compare]
    exact better_settled odd (better_leafState leaf)
  | call call =>
    rw [stateWith_call, stateWith_call]
    exact better_settled odd (by decide)
  | group q ih =>
    rw [takesHalfResolved] at h
    rw [stateWith_group, stateWith_group]
    exact ih negated odd h
  | marked m note q ih =>
    rw [stateWith_marked, stateWith_marked, unitState?_forOne]
    apply better_settled
    cases hunit : (amongAll fields).unitState? m (.marked m note q) q with
    | some s => exact better_of_unitState? hunit
    | none =>
      rw [takesHalfResolved, hunit] at h
      exact ih negated false h

/-! ## Queries -/

/-- Whether a query takes in a half-resolved child under a catalog and a configuration. -/
def takesHalf (catalog : Catalog) (config : Config) (q : Query) : Bool :=
  takesHalfResolved (ofCatalog catalog config .globalIndex).fields false q

end Classifier

/-- The state of a query for one record is no worse than among all records, unless the
    query is executable there and takes in a half-resolved child. -/
theorem noWorse_or_takesHalf (catalog : Catalog) (config : Config) (q : Query) :
    let all := ((Classifier.ofCatalog catalog config .globalIndex).classify q).state
    let one := ((Classifier.ofCatalog catalog config .fieldIndex).classify q).state
    (all = .ignorable ↔ one = .ignorable) ∧
      (one.NoWorse all ∨
        all = .executable ∧ one = .partially ∧ Classifier.takesHalf catalog config q = true) := by
  intro all one
  have hagrees : ExecState.Agrees all one := Classifier.agrees_stateWith q false false
  refine ⟨hagrees.ignorable, ?_⟩
  by_cases htakes : Classifier.takesHalf catalog config q = true
  · obtain horder | ⟨hall, hone⟩ := hagrees.order
    · exact .inl horder
    · exact .inr ⟨hall, hone, htakes⟩
  · have hbetter : ExecState.Better all one :=
      Classifier.better_stateWith q false false (Bool.eq_false_iff.2 htakes)
    exact .inl hbetter.noWorse

/-! ### A negated conjunction that the index of the record resolves in part -/

/-- `A` and `B` have index entries, and no other field has. -/
def pairCatalog : Catalog :=
  { fields := .ofList [("A", { indexed := true }), ("B", { indexed := true })] }

/-- `A == 'a' && !(B == 'b' && EVENT == 'x')` -/
def pairQuery : Query :=
  .junction .and [.compareWith .eq "A" (.string "a"),
    .not (.junction .and [.compareWith .eq "B" (.string "b"), .compareWith .eq "EVENT" (.string "x")])]

/-- Among all records the negation is passed over, since `A` finds the records. -/
theorem not_forall_noWorse :
    ¬ ∀ (catalog : Catalog) (config : Config) (q : Query),
      ((Classifier.ofCatalog catalog config .fieldIndex).classify q).state.NoWorse
        ((Classifier.ofCatalog catalog config .globalIndex).classify q).state := by
  intro hall
  have hpair := hall pairCatalog {} pairQuery
  have hglobal : ((Classifier.ofCatalog pairCatalog {} .globalIndex).classify pairQuery).state =
      .executable := by rfl
  have hfield : ((Classifier.ofCatalog pairCatalog {} .fieldIndex).classify pairQuery).state =
      .partially := by rfl
  rw [hglobal, hfield] at hpair
  exact absurd hpair (by decide)

end IndexQuery
