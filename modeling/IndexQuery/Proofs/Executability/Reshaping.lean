import IndexQuery.Proofs.Executability.PushDown
import Mathlib.Logic.Relation

/-! # The shape of junctions

    What a query asks for does not depend on the order of the children of a junction, nor on
    repeated children, nested junctions of one kind or groups. The passes are free with all
    of these, and so the state of a query must not depend on them either.

    A junction of a single child is another matter. It ends a chain of negations, so that two
    negations with the junction between them do not cancel, though they do without it.

    * `Query.Reshapes`: one change of shape, anywhere but beneath a range.
    * `Combine.apply_eq_of_mem_iff`: the state of a junction is that of the set of its
      children's states.
    * `Classifier.stateWith_of_reshapes`: one change leaves the state as it is, beneath any
      negations.
    * `state_of_sameShape`: and so does any number of changes.
-/

namespace IndexQuery

/-! ## Changes of shape -/

namespace Query

/-- One change of the shape of a query. A range is left alone, for it is read from the exact
    shape of what is marked. -/
inductive Reshapes : Query → Query → Prop where
  /-- The children of a junction come in another order. -/
  | reorder {kind : Junction} {cs cs' : List Query} :
    cs.Perm cs' → Reshapes (.junction kind cs) (.junction kind cs')
  /-- A child is repeated. -/
  | repeated {kind : Junction} {cs : List Query} {q : Query} :
    q ∈ cs → Reshapes (.junction kind cs) (.junction kind (q :: cs))
  /-- A junction directly in one of its kind hands its children over. -/
  | merge {kind : Junction} {front inner back : List Query} :
    Reshapes (.junction kind (front ++ .junction kind inner :: back))
      (.junction kind (front ++ (inner ++ back)))
  /-- A group is taken away. -/
  | ungroup {q : Query} : Reshapes (.group q) q
  /-- The change is made further down. -/
  | junction {kind : Junction} {front back : List Query} {q q' : Query} : Reshapes q q' →
    Reshapes (.junction kind (front ++ q :: back)) (.junction kind (front ++ q' :: back))
  | not {q q' : Query} : Reshapes q q' → Reshapes (.not q) (.not q')
  | group {q q' : Query} : Reshapes q q' → Reshapes (.group q) (.group q')
  | marked {m : Marker} {note : Option DropNote} {q q' : Query} : m ≠ .bounded →
    Reshapes q q' → Reshapes (.marked m note q) (.marked m note q')

/-- Two queries that come from each other by changes of shape, made and unmade. -/
def SameShape : Query → Query → Prop := Relation.EqvGen Reshapes

/-- A change of shape neither loses a field nor brings one in. -/
theorem Reshapes.mem_mentions {q q' : Query} (h : q.Reshapes q') (field : String) :
    field ∈ q.mentions ↔ field ∈ q'.mentions := by
  induction h with
  | reorder hperm =>
    rw [mem_mentions_junction, mem_mentions_junction]
    simp only [hperm.mem_iff]
  | @repeated kind cs q hq =>
    rw [mem_mentions_junction, mem_mentions_junction]
    constructor
    · intro ⟨c, hc, hfield⟩
      exact ⟨c, List.mem_cons_of_mem q hc, hfield⟩
    · intro ⟨c, hc, hfield⟩
      rcases List.mem_cons.1 hc with rfl | hc
      · exact ⟨c, hq, hfield⟩
      · exact ⟨c, hc, hfield⟩
  | merge =>
    rw [mem_mentions_junction, mem_mentions_junction]
    simp only [List.mem_append, List.mem_cons, or_and_right, exists_or, exists_eq_left,
      mem_mentions_junction]
  | ungroup => rw [mentions]
  | junction _ ih =>
    rw [mem_mentions_junction, mem_mentions_junction]
    simp only [List.mem_append, List.mem_cons, or_and_right, exists_or, exists_eq_left, ih]
  | not _ ih => rw [mentions, mentions, ih]
  | group _ ih => rw [mentions, mentions, ih]
  | marked _ _ ih => rw [mentions, mentions, ih]

end Query

/-! ## States -/

/-- Neither the order of the children nor their number has an influence on the state of a
    junction. -/
theorem Combine.apply_eq_of_mem_iff {combine : Combine} {states states' : List ExecState}
    (h : ∀ s, s ∈ states ↔ s ∈ states') : combine.apply states = combine.apply states' := by
  rw [apply_eq_ofStates, apply_eq_ofStates]
  apply ofStates_congr
  intro s _
  rw [Bool.eq_iff_iff, List.contains_iff_mem, List.contains_iff_mem]
  exact h s

namespace Classifier

variable {c : Classifier}

/-- What has to be evaluated on the record is judged by the set of its fields. -/
theorem byRecord_eq_of_mem_iff {fields fields' : List String} (h : ∀ f, f ∈ fields ↔ f ∈ fields') :
    c.byRecord fields = c.byRecord fields' := by
  have hany : fields.any c.fields.nonEvent.contains = fields'.any c.fields.nonEvent.contains := by
    rw [Bool.eq_iff_iff, List.any_eq_true, List.any_eq_true]
    simp only [h]
  unfold byRecord
  rw [hany]

/-- Units other than ranges are judged by their fields at most. -/
theorem unitState?_eq_of_mem_iff {m : Marker} (hm : m ≠ .bounded) (whole whole' : Query)
    {q q' : Query} (h : ∀ f, f ∈ q.mentions ↔ f ∈ q'.mentions) :
    c.unitState? m whole q = c.unitState? m whole' q' := by
  cases m with
  | bounded => exact absurd rfl hm
  | evaluationOnly =>
    have hfields : ∀ f, f ∈ q.fields ↔ f ∈ q'.fields := by
      intro f
      rw [Query.fields, Query.fields, mem_distinct, mem_distinct]
      exact h f
    show some (c.byRecord q.fields) = some (c.byRecord q'.fields)
    rw [byRecord_eq_of_mem_iff hfields]
  | list | term | lenient | strict => rfl
  | delayed | exceededTerm | indexHole | exceededValue | exceededOr | drop => rfl

/-- One change of shape leaves the state as it is, beneath any negations. -/
theorem stateWith_of_reshapes {q q' : Query} (h : q.Reshapes q') (negated odd : Bool) :
    c.stateWith negated odd q = c.stateWith negated odd q' := by
  induction h generalizing negated odd with
  | reorder hperm =>
    rw [stateWith_junction, stateWith_junction]
    congr 1
    apply Combine.apply_eq_of_mem_iff
    intro s
    exact (hperm.map _).mem_iff
  | @repeated kind cs q hq =>
    rw [stateWith_junction, stateWith_junction]
    congr 1
    apply Combine.apply_eq_of_mem_iff
    intro s
    rw [List.map_cons, List.mem_cons]
    constructor
    · exact .inr
    · rintro (rfl | hs)
      · exact List.mem_map_of_mem hq
      · exact hs
  | @merge kind front inner back =>
    -- the inner junction sees the same negations, and so combines its children in the same way
    have hinner : c.stateWith negated false (.junction kind inner) =
        (Combine.ofJunction kind negated).apply (inner.map (c.stateWith negated false)) := by
      rw [stateWith_junction, settled_false]
    rw [stateWith_junction, stateWith_junction]
    simp only [List.map_append, List.map_cons, Combine.apply_append, Combine.apply_cons, hinner]
  | ungroup => rw [stateWith_group]
  | junction _ ih =>
    rw [stateWith_junction, stateWith_junction]
    simp only [List.map_append, List.map_cons, ih]
  | not _ ih => rw [stateWith_not, stateWith_not, ih]
  | group _ ih => rw [stateWith_group, stateWith_group, ih]
  | marked hm hreshapes ih =>
    rw [stateWith_marked, stateWith_marked, ih,
      unitState?_eq_of_mem_iff hm _ _ hreshapes.mem_mentions]

/-- Any number of changes leaves the state as it is. -/
theorem stateWith_of_sameShape {q q' : Query} (h : q.SameShape q') (negated odd : Bool) :
    c.stateWith negated odd q = c.stateWith negated odd q' := by
  induction h with
  | rel q q' hstep => exact stateWith_of_reshapes hstep negated odd
  | refl q => rfl
  | symm q q' _ ih => exact ih.symm
  | trans q q' q'' _ _ ih ih' => exact ih.trans ih'

end Classifier

/-! ## Queries -/

/-- The state of a query depends on its logical shape alone: it stays as it is when children
    are reordered or repeated, when junctions of one kind are merged and when groups come and
    go, here and there in the query, and beneath negations as well. -/
theorem state_of_sameShape (catalog : Catalog) (config : Config) (mode : ExecMode) {q q' : Query}
    (h : q.SameShape q') :
    let c := Classifier.ofCatalog catalog config mode
    (c.classify q).state = (c.classify q').state ∧
      ∀ negated odd, (c.classifyWith negated odd q).state = (c.classifyWith negated odd q').state := by
  intro c
  have hstate : ∀ negated odd, c.stateWith negated odd q = c.stateWith negated odd q' :=
    Classifier.stateWith_of_sameShape h
  exact ⟨hstate false false, hstate⟩

/-- `!(A == 'a' && (B == 'b' && EVENT == 'x'))`, with the inner conjunction as a child -/
def deepQuery : Query :=
  .not (.group (.junction .and [.compareWith .eq "A" (.string "a"),
    .junction .and [.compareWith .eq "B" (.string "b"), .compareWith .eq "EVENT" (.string "x")]]))

/-- `!((EVENT == 'x') && B == 'b' && A == 'a' && A == 'a')` -/
def levelQuery : Query :=
  .not (.junction .and [.group (.compareWith .eq "EVENT" (.string "x")),
    .compareWith .eq "B" (.string "b"), .compareWith .eq "A" (.string "a"),
    .compareWith .eq "A" (.string "a")])

/-- The inner junction is merged, a child is repeated, the order is turned around and a child
    is put in a group. -/
theorem sameShape_deepQuery : deepQuery.SameShape levelQuery := by
  let a : Query := .compareWith .eq "A" (.string "a")
  let b : Query := .compareWith .eq "B" (.string "b")
  let x : Query := .compareWith .eq "EVENT" (.string "x")
  have hungrouped : deepQuery.Reshapes (.not (.junction .and [a, .junction .and [b, x]])) :=
    .not .ungroup
  have hmerged : Query.Reshapes (.not (.junction .and [a, .junction .and [b, x]]))
      (.not (.junction .and [a, b, x])) := .not (@Query.Reshapes.merge .and [a] [b, x] [])
  have hrepeated : Query.Reshapes (.not (.junction .and [a, b, x]))
      (.not (.junction .and [a, a, b, x])) := .not (.repeated List.mem_cons_self)
  have hreordered : Query.Reshapes (.not (.junction .and [a, a, b, x]))
      (.not (.junction .and [x, b, a, a])) := .not (.reorder (List.reverse_perm [x, b, a, a]))
  have hgrouped : levelQuery.Reshapes (.not (.junction .and [x, b, a, a])) :=
    .not (@Query.Reshapes.junction .and [] [b, a, a] _ _ .ungroup)
  -- the last change is unmade
  exact .trans _ _ _ (.rel _ _ hungrouped) <| .trans _ _ _ (.rel _ _ hmerged) <|
    .trans _ _ _ (.rel _ _ hrepeated) <| .trans _ _ _ (.rel _ _ hreordered) <|
    .symm _ _ (.rel _ _ hgrouped)

/-- Both queries are answered in part, and so is what they negate. -/
theorem state_of_sameShape_deepQuery :
    deepQuery.SameShape levelQuery ∧
      ((Classifier.ofCatalog pairCatalog {} .fieldIndex).classify deepQuery).state = .partially ∧
      ((Classifier.ofCatalog pairCatalog {} .fieldIndex).classify levelQuery).state = .partially := by
  have hnested : ((Classifier.ofCatalog pairCatalog {} .fieldIndex).classify deepQuery).state =
      .partially := by decide +kernel
  have hstate := (state_of_sameShape pairCatalog {} .fieldIndex sameShape_deepQuery).1
  exact ⟨sameShape_deepQuery, hnested, hstate.symm.trans hnested⟩

end IndexQuery
