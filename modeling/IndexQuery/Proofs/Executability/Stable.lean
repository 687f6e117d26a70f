import IndexQuery.Proofs.Executability.PushDown

/-! # Delaying leaves nothing to delay

    What is delayed is no longer partly answered, and what is delayed further up was no
    anchor before. So one pass over a flat query delays all that can be delayed.

    * `Query.Reaches`: the parts of a query that a pass comes to.
    * `Classifier.pushDown_junction_of_flat`: the junctions of a flat query stay apart.
    * `Classifier.ne_partially_of_reaches`: no conjunction that is reached is left with both
      a child that finds the records and one that is partly answered.
    * `Classifier.pushDown_pushDown`: a second pass changes nothing.
-/

namespace IndexQuery

/-! ## What a pass comes to -/

/-- A part of a query that is reached through junctions, groups and the markers that hand
    on a state, hence beneath no negation and nothing that is left to evaluation. -/
inductive Query.Reaches : Query → Query → Prop where
  | self (q : Query) : Reaches q q
  | junction {kind : Junction} {cs : List Query} {c p : Query} :
    c ∈ cs → Reaches c p → Reaches (.junction kind cs) p
  | group {c p : Query} : Reaches c p → Reaches (.group c) p
  | marked {m : Marker} {note : Option DropNote} {c p : Query} :
    m.handsOn = true → Reaches c p → Reaches (.marked m note c) p

namespace Classifier

variable {c : Classifier}

/-! ## The children of a conjunction -/

/-- The children of a conjunction once those are delayed that have to be. -/
def delayAll (c : Classifier) (cs : List Query) : List Query :=
  if cs.any c.answers then cs.map c.delayPartial else cs

theorem anchor_eq (cs : List Query) : c.anchor cs = .conj (c.delayAll cs) := rfl

theorem length_delayAll (cs : List Query) : (c.delayAll cs).length = cs.length := by
  unfold delayAll
  split
  · exact List.length_map _
  · rfl

/-- A child stays as it is or is delayed. -/
theorem delayPartial_cases (q : Query) :
    c.delayPartial q = q ∨ c.delayPartial q = .mark .delayed q.ungrouped := by
  unfold delayPartial
  split
  · exact .inr rfl
  · exact .inl rfl

theorem mem_delayAll {cs : List Query} {q : Query} (h : q ∈ c.delayAll cs) :
    q ∈ cs ∨ ∃ d, q = .mark .delayed d := by
  unfold delayAll at h
  split at h
  · obtain ⟨d, hd, rfl⟩ := List.mem_map.1 h
    rcases delayPartial_cases (c := c) d with hkept | hdelayed
    · rw [hkept]
      exact .inl hd
    · exact .inr ⟨_, hdelayed⟩
  · exact .inl h

/-- A delayed child is no longer partly answered. -/
theorem state_delayPartial_ne_partially (q : Query) :
    c.stateWith false false (c.delayPartial q) ≠ .partially := by
  rw [state_delayPartial]
  cases c.stateWith false false q <;> decide

/-- Once children are delayed, none of them finds the records beside one that is partly
    answered. -/
theorem ne_partially_of_answers {cs : List Query} {a b : Query} (ha : a ∈ c.delayAll cs)
    (hb : b ∈ c.delayAll cs) (hanswers : c.answers a = true) :
    (c.classify b).state ≠ .partially := by
  unfold delayAll at ha hb
  split at ha
  · rename_i hanchored
    rw [if_pos hanchored] at hb
    obtain ⟨d, -, rfl⟩ := List.mem_map.1 hb
    exact state_delayPartial_ne_partially d
  · -- nothing was delayed, as no child finds the records
    rename_i hanchored
    exact absurd (List.any_eq_true.2 ⟨a, ha, hanswers⟩) hanchored

/-- What is delayed once need not be delayed again. -/
theorem delayAll_delayAll (cs : List Query) : c.delayAll (c.delayAll cs) = c.delayAll cs := by
  by_cases hanchored : (c.delayAll cs).any c.answers = true
  · obtain ⟨a, ha, hanswers⟩ := List.any_eq_true.1 hanchored
    have hkept : ∀ q ∈ c.delayAll cs, c.delayPartial q = id q := by
      intro q hq
      rw [delayPartial, if_neg (ne_partially_of_answers ha hq hanswers)]
      rfl
    rw [delayAll, if_pos hanchored, List.map_congr_left hkept, List.map_id]
  · rw [delayAll, if_neg hanchored]

/-! ## Flat queries -/

/-- What becomes of the children of a junction. -/
def pushedChildren (c : Classifier) : Junction → List Query → List Query
  | .and, cs => c.delayAll (cs.map c.pushDown)
  | .or, cs => cs.map c.pushDown

theorem pushDown_junction (kind : Junction) (cs : List Query) :
    c.pushDown (.junction kind cs) = .join kind (c.pushedChildren kind cs) := by
  cases kind with
  | and => rw [pushDown, pushDownAll_eq_map, anchor_eq, pushedChildren, Query.conj]
  | or => rw [pushDown, pushDownAll_eq_map, pushedChildren, Query.disj]

theorem length_pushedChildren (kind : Junction) (cs : List Query) :
    (c.pushedChildren kind cs).length = cs.length := by
  cases kind with
  | and => rw [pushedChildren, length_delayAll, List.length_map]
  | or => rw [pushedChildren, List.length_map]

theorem mem_pushedChildren {kind : Junction} {cs : List Query} {d : Query}
    (h : d ∈ c.pushedChildren kind cs) :
    (∃ q ∈ cs, d = c.pushDown q) ∨ ∃ q, d = .mark .delayed q := by
  cases kind with
  | and =>
    rcases mem_delayAll h with h | hdelayed
    · obtain ⟨q, hq, rfl⟩ := List.mem_map.1 h
      exact .inl ⟨q, hq, rfl⟩
    · exact .inr hdelayed
  | or =>
    obtain ⟨q, hq, rfl⟩ := List.mem_map.1 h
    exact .inl ⟨q, hq, rfl⟩

/-- Where no child becomes a junction of the same kind, the junction keeps its children
    apart. -/
theorem join_pushedChildren {kind : Junction} {cs : List Query} (hlength : cs.length ≠ 1)
    (h : ∀ q ∈ cs, (c.pushDown q).IsOperand kind) :
    Query.join kind (c.pushedChildren kind cs) = .junction kind (c.pushedChildren kind cs) := by
  apply Query.join_of_isOperand
  · intro d hd
    rcases mem_pushedChildren hd with ⟨q, hq, rfl⟩ | ⟨q, rfl⟩
    · exact h q hq
    · simp [Query.mark, Query.IsOperand]
  · rwa [length_pushedChildren]

/-- A pass over a flat query turns nothing into a junction that was none of its kind. -/
theorem isOperand_pushDown {q : Query} {kind : Junction} (hflat : q.Flat)
    (hq : q.IsOperand kind) : (c.pushDown q).IsOperand kind := by
  induction q using Query.induction generalizing kind with
  | junction k cs ih =>
    obtain ⟨hlength, hoperands⟩ := hflat.of_junction
    have hne : k ≠ kind := by
      rintro rfl
      exact hq cs rfl
    have hchildren : ∀ q ∈ cs, (c.pushDown q).IsOperand k := fun q hmem =>
      ih q hmem (hflat.of_mem_children hmem) (hoperands q hmem)
    rw [pushDown_junction, join_pushedChildren hlength hchildren]
    intro cs' heq
    cases heq
    exact hne rfl
  | not q _ | compare leaf | call call | group q _ =>
    rw [pushDown]
    simp [Query.IsOperand]
  | marked m note q _ =>
    cases hm : m.handsOn with
    | true =>
      rw [pushDown_marked hm]
      simp [Query.IsOperand]
    | false => rwa [pushDown_marked_of_not_handsOn hm]

/-- The junctions of a flat query stay, with what becomes of their children. -/
theorem pushDown_junction_of_flat {kind : Junction} {cs : List Query}
    (hflat : (Query.junction kind cs).Flat) :
    c.pushDown (.junction kind cs) = .junction kind (c.pushedChildren kind cs) := by
  obtain ⟨hlength, hoperands⟩ := hflat.of_junction
  rw [pushDown_junction, join_pushedChildren hlength]
  intro q hq
  exact isOperand_pushDown (hflat.of_mem_children hq) (hoperands q hq)

/-! ## Stability -/

/-- What a pass leaves of a flat query it leaves again. -/
theorem pushDown_pushDown {q : Query} (hflat : q.Flat) :
    c.pushDown (c.pushDown q) = c.pushDown q := by
  induction q using Query.induction with
  | junction kind cs ih =>
    rw [pushDown_junction_of_flat hflat]
    -- the children stay, and then there is nothing to delay among them
    have hmap : (c.pushedChildren kind cs).map c.pushDown = c.pushedChildren kind cs := by
      have hsame : ∀ d ∈ c.pushedChildren kind cs, c.pushDown d = id d := by
        intro d hd
        rcases mem_pushedChildren hd with ⟨q, hq, rfl⟩ | ⟨q, rfl⟩
        · exact ih q hq (hflat.of_mem_children hq)
        · exact pushDown_marked_of_not_handsOn rfl none q
      rw [List.map_congr_left hsame, List.map_id]
    have hagain : c.pushedChildren kind (c.pushedChildren kind cs) = c.pushedChildren kind cs := by
      cases kind with
      | and =>
        rw [pushedChildren, hmap, pushedChildren, delayAll_delayAll]
      | or => rw [pushedChildren, hmap]
    obtain ⟨hlength, hoperands⟩ := hflat.of_junction
    rw [pushDown_junction, hagain, join_pushedChildren hlength]
    intro q hq
    exact isOperand_pushDown (hflat.of_mem_children hq) (hoperands q hq)
  | not q _ | compare leaf | call call => rw [pushDown, pushDown]
  | group q ih => rw [pushDown, pushDown, ih (hflat.of_mem_children List.mem_cons_self)]
  | marked m note q ih =>
    cases hm : m.handsOn with
    | true =>
      rw [pushDown_marked hm, pushDown_marked hm, ih (hflat.of_mem_children List.mem_cons_self)]
    | false => rw [pushDown_marked_of_not_handsOn hm, pushDown_marked_of_not_handsOn hm]

/-! ## Completeness -/

/-- No conjunction that a pass comes to is left with a child that finds the records and one
    that is partly answered. -/
theorem ne_partially_of_reaches {q a b : Query} {cs : List Query} (hflat : q.Flat)
    (hreaches : (c.pushDown q).Reaches (.junction .and cs)) (ha : a ∈ cs) (hb : b ∈ cs)
    (hanswers : c.answers a = true) : (c.classify b).state ≠ .partially := by
  induction q using Query.induction with
  | junction kind ds ih =>
    rw [pushDown_junction_of_flat hflat] at hreaches
    -- either this is the conjunction, or it stands beneath one of the children
    cases hreaches with
    | self => exact ne_partially_of_answers ha hb hanswers
    | junction hd hreaches =>
      rcases mem_pushedChildren hd with ⟨q, hq, rfl⟩ | ⟨q, rfl⟩
      · exact ih q hq (hflat.of_mem_children hq) hreaches
      · cases hreaches with
        | marked hm _ => cases hm
  | not q _ | compare leaf | call call =>
    rw [pushDown] at hreaches
    cases hreaches
  | group q ih =>
    rw [pushDown] at hreaches
    cases hreaches with
    | group hreaches => exact ih (hflat.of_mem_children List.mem_cons_self) hreaches
  | marked m note q ih =>
    cases hm : m.handsOn with
    | true =>
      rw [pushDown_marked hm] at hreaches
      cases hreaches with
      | marked _ hreaches => exact ih (hflat.of_mem_children List.mem_cons_self) hreaches
    | false =>
      rw [pushDown_marked_of_not_handsOn hm] at hreaches
      cases hreaches with
      | marked hm' _ =>
        rw [hm] at hm'
        cases hm'

end Classifier

/-! ## Queries -/

/-- One pass over a flat query delays all that can be delayed: no conjunction that it comes
    to is left with both a child that finds the records and one that is partly answered, and
    a second pass changes nothing. -/
theorem delayed_all_of_flat (catalog : Catalog) (config : Config) (mode : ExecMode) (q : Query)
    (hflat : q.Flat) :
    let c := Classifier.ofCatalog catalog config mode
    (∀ cs, (c.pushDown q).Reaches (.junction .and cs) →
        ¬ ((∃ a ∈ cs, mode.answers (c.classify a).state = true) ∧
          ∃ b ∈ cs, (c.classify b).state = .partially)) ∧
      c.pushDown (c.pushDown q) = c.pushDown q := by
  intro c
  refine ⟨?_, Classifier.pushDown_pushDown hflat⟩
  rintro cs hreaches ⟨⟨a, ha, hanswers⟩, b, hb, hpartially⟩
  exact Classifier.ne_partially_of_reaches hflat hreaches ha hb hanswers hpartially

/-- `A == 'a' || (B == 'b' && (A == 'b' || EVENT == 'x') && EVENT == 'y')` -/
def nestedQuery : Query :=
  .disj [.compareWith .eq "A" (.string "a"),
    .conj [.compareWith .eq "B" (.string "b"),
      .group (.disj [.compareWith .eq "A" (.string "b"), .compareWith .eq "EVENT" (.string "x")]),
      .compareWith .eq "EVENT" (.string "y")]]

/-- The inner disjunction is delayed, and then all is done. -/
theorem delayed_all_nestedQuery :
    let c := Classifier.ofCatalog pairCatalog {} .globalIndex
    nestedQuery.Flat ∧ c.pushDown nestedQuery ≠ nestedQuery ∧
      (∀ cs, (c.pushDown nestedQuery).Reaches (.junction .and cs) →
        ¬ ((∃ a ∈ cs, ExecMode.globalIndex.answers (c.classify a).state = true) ∧
          ∃ b ∈ cs, (c.classify b).state = .partially)) ∧
      c.pushDown (c.pushDown nestedQuery) = c.pushDown nestedQuery := by
  have hflat : nestedQuery.Flat := by decide +kernel
  have hdelayed : (Classifier.ofCatalog pairCatalog {} .globalIndex).pushDown nestedQuery ≠
      nestedQuery := by decide +kernel
  exact ⟨hflat, hdelayed, delayed_all_of_flat pairCatalog {} .globalIndex nestedQuery hflat⟩

end IndexQuery
