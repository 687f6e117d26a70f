import IndexQuery.Executability.PushDown
import IndexQuery.Proofs.Executability.Modes
import IndexQuery.Proofs.Query.Canonical

/-! # Delaying worsens no state

    What is delayed is left to the record. It was partly so before, and beside a child
    that finds the records it is passed over then.

    * `Combine.apply_flatMap`: how junctions are nested has no influence on the state.
    * `ExecState.Eased`: what delaying may do to a state.
    * `Classifier.eased_pushDown`: it does nothing else, at any node that it comes to.
    * `Classifier.pushDown_of_flat`: where nothing is partly answered, it does nothing.
-/

namespace IndexQuery

/-! ## Nested junctions -/

namespace Combine

variable {combine : Combine}

theorem join_assoc (a b c : ExecState) :
    combine.join (combine.join a b) c = combine.join a (combine.join b c) := by
  revert a b c
  cases combine <;> decide +kernel

@[simp] theorem ignorable_join (s : ExecState) : combine.join .ignorable s = s := by
  cases s <;> rfl

@[simp] theorem join_ignorable (s : ExecState) : combine.join s .ignorable = s := by
  cases s <;> rfl

@[simp] theorem apply_singleton (s : ExecState) : combine.apply [s] = s := by
  rw [apply_cons, apply_nil, join_ignorable]

theorem apply_append (states states' : List ExecState) :
    combine.apply (states ++ states') = combine.join (combine.apply states) (combine.apply states') := by
  induction states with
  | nil => simp
  | cons s states ih => rw [List.cons_append, apply_cons, apply_cons, ih, join_assoc]

/-- States may be combined group by group. -/
theorem apply_flatMap {α : Type} (f : α → List ExecState) (items : List α) :
    combine.apply (items.flatMap f) = combine.apply (items.map fun a => combine.apply (f a)) := by
  induction items with
  | nil => rfl
  | cons a items ih => rw [List.flatMap_cons, List.map_cons, apply_append, apply_cons, ih]

end Combine

namespace Classifier

variable (c : Classifier)

/-- The operands of a query have its state together. -/
theorem apply_operands (negated : Bool) (kind : Junction) (q : Query) :
    (Combine.ofJunction kind negated).apply ((q.operands kind).map (c.stateWith negated false)) =
      c.stateWith negated false q := by
  by_cases h : q.IsOperand kind
  · rw [Query.operands_of_isOperand h, List.map_singleton, Combine.apply_singleton]
  · obtain ⟨cs, rfl⟩ := Query.exists_of_not_isOperand h
    rw [Query.operands, if_pos rfl, stateWith_junction, settled_false]

/-- What is joined has the state of a junction. -/
theorem stateWith_join (negated : Bool) (kind : Junction) (cs : List Query) :
    c.stateWith negated false (.join kind cs) =
      (Combine.ofJunction kind negated).apply (cs.map (c.stateWith negated false)) := by
  have hflat : (Combine.ofJunction kind negated).apply
      ((cs.flatMap (Query.operands kind)).map (c.stateWith negated false)) =
      (Combine.ofJunction kind negated).apply (cs.map (c.stateWith negated false)) := by
    rw [List.map_flatMap, Combine.apply_flatMap]
    simp only [apply_operands]
  -- a single operand has its own state, as the junction of it would have
  rw [← hflat]
  unfold Query.join
  split
  · rename_i q hq
    rw [hq, List.map_singleton, Combine.apply_singleton]
  · rw [stateWith_junction, settled_false]

end Classifier

/-! ## Eased states -/

namespace ExecState

/-- What delaying may do to a state: what was partly answered may come to be answered, and
    all else is as it was. -/
structure Eased (s s' : ExecState) : Prop where
  unchanged : s ≠ .partially → s' = s
  eased : s = .partially → s' = .partially ∨ s' = .executable ∨ s' = .negatedExecutable

instance (s s' : ExecState) : Decidable (Eased s s') :=
  decidable_of_iff ((s ≠ .partially → s' = s) ∧
      (s = .partially → s' = .partially ∨ s' = .executable ∨ s' = .negatedExecutable))
    ⟨fun ⟨h, h'⟩ => ⟨h, h'⟩, fun h => ⟨h.unchanged, h.eased⟩⟩

theorem eased_refl (s : ExecState) : Eased s s := by
  revert s
  decide

theorem Eased.trans {s s' s'' : ExecState} (h : Eased s s') (h' : Eased s' s'') : Eased s s'' := by
  revert s s' s''
  decide +kernel

theorem Eased.join {combine : Combine} {s s' t t' : ExecState} (h : Eased s s') (h' : Eased t t') :
    Eased (combine.join s t) (combine.join s' t') := by
  revert s s' t t'
  cases combine <;> decide +kernel

/-- The state of a child of a conjunction once it is delayed, if it has to be. -/
def delayed : ExecState → ExecState
  | .partially => .nonExecutable
  | s => s

theorem delayed_of_answers {mode : ExecMode} {s : ExecState} (h : mode.answers s = true) :
    s.delayed = s := by
  cases s with
  | «partially» => cases h
  | _ => rfl

/-- What delaying its children may do to a conjunction. Without a child that finds the
    records it comes to be left to the record. -/
def Delays (s s' : ExecState) : Prop := Eased s s' ∨ s = .partially ∧ s' = .nonExecutable

instance (s s' : ExecState) : Decidable (Delays s s') :=
  inferInstanceAs (Decidable (_ ∨ _))

theorem Delays.join {s s' t t' : ExecState} (h : Delays s s') (h' : Delays t t') :
    Delays (Combine.allOrSome.join s t) (Combine.allOrSome.join s' t') := by
  revert s s' t t'
  decide +kernel

theorem delays_delayed (s : ExecState) : Delays s s.delayed := by
  revert s
  decide

end ExecState

/-- Where one executable child is enough, one that is answered is not left to the record
    with the others. -/
theorem Combine.apply_allOrSome_ne_nonExecutable {mode : ExecMode} {states : List ExecState}
    {s : ExecState} (hs : s ∈ states) (hanswers : mode.answers s = true) :
    allOrSome.apply states ≠ .nonExecutable := by
  have hcontains : states.contains s = true := by simpa using hs
  rw [apply_eq_ofStates, ofStates]
  -- only the flags of the states matter, and there are few of them
  generalize states.contains .nonExecutable = non
  generalize states.contains .partially = partially
  generalize states.contains .error = error
  cases s with
  | executable =>
    rw [hcontains]
    generalize states.contains .negatedExecutable = negated
    revert negated non partially error
    decide
  | negatedExecutable =>
    rw [hcontains]
    generalize states.contains .executable = executable
    revert executable non partially error
    decide
  | nonExecutable | partially | ignorable | error => cases hanswers

/-- A child that is partly answered leaves its junction so, or there is an error. -/
theorem Combine.apply_of_partially_mem {combine : Combine} {states : List ExecState}
    (h : .partially ∈ states) :
    combine.apply states = .partially ∨ combine.apply states = .error := by
  have hjoin : ∀ s t : ExecState, s = .partially ∨ t = .partially ∨ t = .error →
      combine.join s t = .partially ∨ combine.join s t = .error := by
    cases combine <;> decide
  induction states with
  | nil => cases h
  | cons s states ih =>
    rw [apply_cons]
    rcases List.mem_cons.1 h with rfl | h
    · exact hjoin _ _ (.inl rfl)
    · exact hjoin _ _ (.inr (ih h))

/-! ## Delaying -/

/-- The markers beneath which branches are delayed. They hand on the state of what they
    mark. -/
def Marker.handsOn : Marker → Bool
  | .lenient | .strict | .list | .term => true
  | _ => false

namespace Classifier

variable {c : Classifier}

theorem pushDown_marked {m : Marker} (hm : m.handsOn = true) (note : Option DropNote) (q : Query) :
    c.pushDown (.marked m note q) = .marked m note (c.pushDown q) := by
  cases m with
  | lenient | strict | list | term => rw [pushDown]
  | _ => cases hm

theorem pushDown_marked_of_not_handsOn {m : Marker} (hm : m.handsOn = false)
    (note : Option DropNote) (q : Query) :
    c.pushDown (.marked m note q) = .marked m note q := by
  cases m with
  | lenient | strict | list | term => cases hm
  | _ => rw [pushDown] <;> simp

theorem stateWith_marked_of_handsOn {m : Marker} (hm : m.handsOn = true) (negated : Bool)
    (note : Option DropNote) (q : Query) :
    c.stateWith negated false (.marked m note q) = c.stateWith negated false q := by
  cases m with
  | lenient | strict | list | term => rw [stateWith_marked, settled_false]; rfl
  | _ => cases hm

theorem pushDownAll_eq_map (cs : List Query) : c.pushDownAll cs = cs.map c.pushDown := by
  induction cs with
  | nil => rfl
  | cons q cs ih => rw [pushDownAll, ih, List.map_cons]

/-- A child that is partly answered is left to the record, the others stay as they are. -/
theorem state_delayPartial (q : Query) :
    c.stateWith false false (c.delayPartial q) = (c.stateWith false false q).delayed := by
  rw [delayPartial, state_classify]
  split
  · rename_i hpartially
    rw [hpartially, Query.mark, stateWith_marked]
    rfl
  · rename_i hother
    cases hstate : c.stateWith false false q with
    | «partially» => exact absurd hstate hother
    | _ => rfl

/-- What `anchor` does to a conjunction. -/
theorem eased_anchor (cs : List Query) :
    ExecState.Eased (Combine.allOrSome.apply (cs.map (c.stateWith false false)))
      (c.stateWith false false (c.anchor cs)) := by
  rw [anchor, Query.conj, stateWith_join]
  by_cases hanchored : cs.any c.answers = true
  · rw [if_pos hanchored, List.map_map]
    have hmap : cs.map (c.stateWith false false ∘ c.delayPartial) =
        cs.map fun q => (c.stateWith false false q).delayed :=
      List.map_congr_left fun q _ => state_delayPartial q
    rw [hmap]
    -- a delayed child is left to the record, and so may be all of them together
    have hdelays : ExecState.Delays (Combine.allOrSome.apply (cs.map (c.stateWith false false)))
        (Combine.allOrSome.apply (cs.map fun q => (c.stateWith false false q).delayed)) :=
      Combine.apply_rel (by decide) (fun _ _ _ _ h h' => h.join h')
        fun q _ => ExecState.delays_delayed _
    -- the child that finds the records is not delayed
    obtain ⟨q, hq, hanswers⟩ := List.any_eq_true.1 hanchored
    have hstate : c.mode.answers (c.stateWith false false q) = true := hanswers
    have hkept := ExecState.delayed_of_answers hstate
    rcases hdelays with heased | ⟨-, hnon⟩
    · exact heased
    · have hmem : c.stateWith false false q ∈
          cs.map fun q => (c.stateWith false false q).delayed := List.mem_map.2 ⟨q, hq, hkept⟩
      exact absurd hnon (Combine.apply_allOrSome_ne_nonExecutable hmem hstate)
  · rw [if_neg hanchored]
    exact ExecState.eased_refl _

/-- Delaying changes no state but `partially`, and that to what is answered. -/
theorem eased_pushDown (q : Query) :
    ExecState.Eased (c.stateWith false false q) (c.stateWith false false (c.pushDown q)) := by
  induction q using Query.induction with
  | junction kind cs ih =>
    have hchildren : ∀ combine : Combine,
        ExecState.Eased (combine.apply (cs.map (c.stateWith false false)))
          (combine.apply ((cs.map c.pushDown).map (c.stateWith false false))) := by
      intro combine
      rw [List.map_map]
      exact Combine.apply_rel (by decide) (fun _ _ _ _ h h' => h.join h') ih
    rw [stateWith_junction, settled_false]
    cases kind with
    | and =>
      -- first the children are eased, then some of them are delayed
      rw [pushDown, pushDownAll_eq_map]
      exact (hchildren .allOrSome).trans (eased_anchor _)
    | or =>
      rw [pushDown, pushDownAll_eq_map, Query.disj, stateWith_join]
      exact hchildren .allOrNone
  | not q _ | compare leaf | call call =>
    rw [pushDown]
    exact ExecState.eased_refl _
  | group q ih =>
    rw [pushDown, stateWith_group, stateWith_group]
    exact ih
  | marked m note q ih =>
    cases hm : m.handsOn with
    | true =>
      rw [pushDown_marked hm, stateWith_marked_of_handsOn hm, stateWith_marked_of_handsOn hm]
      exact ih
    | false =>
      rw [pushDown_marked_of_not_handsOn hm]
      exact ExecState.eased_refl _

end Classifier

/-! ## Where there is nothing to delay -/

namespace Query

/-- Whether a node is no junction in a junction of its kind and none of a single child. -/
def isFlatNode : Query → Bool
  | .junction kind cs => cs.length ≠ 1 && cs.all fun c => c.IsOperand kind
  | .not _ | .compare _ | .call _ | .group _ | .marked .. => true

/-- The queries that joining their junctions anew leaves as they are. -/
def Flat (q : Query) : Prop := q.Every isFlatNode

instance (q : Query) : Decidable q.Flat := inferInstanceAs (Decidable (q.Every _))

/-- A flat junction has more than one child or none, and no child of its kind. -/
theorem Flat.of_junction {kind : Junction} {cs : List Query} (h : (junction kind cs).Flat) :
    cs.length ≠ 1 ∧ ∀ c ∈ cs, c.IsOperand kind := by
  have hnode := (every_iff.1 h).1
  simpa only [isFlatNode, Bool.and_eq_true, decide_eq_true_eq, List.all_eq_true] using hnode

theorem Flat.of_mem_children {q c : Query} (h : q.Flat) (hc : c ∈ q.children) : c.Flat :=
  Every.of_mem_children h hc

theorem Flat.join_eq {kind : Junction} {cs : List Query} (h : (junction kind cs).Flat) :
    join kind cs = .junction kind cs := by
  obtain ⟨hlength, hoperands⟩ := h.of_junction
  exact join_of_isOperand hoperands hlength

end Query

namespace Classifier

variable {c : Classifier}

/-- A query of which nothing is partly answered is left as it is. -/
theorem pushDown_of_flat {q : Query} (hflat : q.Flat)
    (hpartially : c.stateWith false false q ≠ .partially)
    (herror : c.stateWith false false q ≠ .error) : c.pushDown q = q := by
  induction q using Query.induction with
  | junction kind cs ih =>
    rw [stateWith_junction, settled_false] at hpartially herror
    -- a child that is partly answered, or in error, would show in the junction
    have hstates : ∀ q ∈ cs, c.stateWith false false q ≠ .partially ∧
        c.stateWith false false q ≠ .error := by
      intro q hq
      have hmem : c.stateWith false false q ∈ cs.map (c.stateWith false false) :=
        List.mem_map_of_mem hq
      constructor
      · intro hstate
        rw [hstate] at hmem
        exact (Combine.apply_of_partially_mem hmem).elim hpartially herror
      · intro hstate
        rw [hstate] at hmem
        exact herror (Combine.apply_eq_error.2 hmem)
    have hmap : cs.map c.pushDown = cs := by
      have hsame : ∀ q ∈ cs, c.pushDown q = id q := fun q hq =>
        ih q hq (hflat.of_mem_children hq) (hstates q hq).1 (hstates q hq).2
      rw [List.map_congr_left hsame, List.map_id]
    cases kind with
    | and =>
      have hkept : cs.map c.delayPartial = cs := by
        have hsame : ∀ q ∈ cs, c.delayPartial q = id q := fun q hq => by
          rw [delayPartial, state_classify, if_neg (hstates q hq).1]
          rfl
        rw [List.map_congr_left hsame, List.map_id]
      rw [pushDown, pushDownAll_eq_map, hmap, anchor, hkept, ite_self]
      exact hflat.join_eq
    | or =>
      rw [pushDown, pushDownAll_eq_map, hmap]
      exact hflat.join_eq
  | not q _ | compare leaf | call call => rw [pushDown]
  | group q ih =>
    rw [stateWith_group] at hpartially herror
    rw [pushDown, ih (hflat.of_mem_children List.mem_cons_self) hpartially herror]
  | marked m note q ih =>
    cases hm : m.handsOn with
    | true =>
      rw [stateWith_marked_of_handsOn hm] at hpartially herror
      rw [pushDown_marked hm,
        ih (hflat.of_mem_children List.mem_cons_self) hpartially herror]
    | false => rw [pushDown_marked_of_not_handsOn hm]

end Classifier

/-! ## Queries -/

/-- Delaying worsens the state of no query: what was partly answered may come to be answered,
    and the state is the same otherwise. A flat query that is not partly answered stays as it
    is, unless it contradicts what is known of its fields. -/
theorem eased_state_of_pushDown (catalog : Catalog) (config : Config) (mode : ExecMode)
    (q : Query) :
    let c := Classifier.ofCatalog catalog config mode
    let s := (c.classify q).state
    let s' := (c.classify (c.pushDown q)).state
    (s ≠ .partially → s' = s) ∧
      (s = .partially → s' = .partially ∨ s' = .executable ∨ s' = .negatedExecutable) ∧
      (s ≠ .partially → s ≠ .error → q.Flat → c.pushDown q = q) := by
  intro c s s'
  have heased : ExecState.Eased s s' := Classifier.eased_pushDown q
  exact ⟨heased.unchanged, heased.eased,
    fun hpartially herror hflat => Classifier.pushDown_of_flat hflat hpartially herror⟩

/-- `A == 'a' && (B == 'b' || EVENT == 'x')` -/
def branchQuery : Query :=
  .conj [.compareWith .eq "A" (.string "a"),
    .disj [.compareWith .eq "B" (.string "b"), .compareWith .eq "EVENT" (.string "x")]]

/-- The query with its disjunction delayed. -/
def branchDelayed : Query :=
  (Classifier.ofCatalog pairCatalog {} .fieldIndex).pushDown branchQuery

/-- The disjunction is delayed, and nothing is left to delay then. -/
theorem eased_state_branchQuery :
    let c := Classifier.ofCatalog pairCatalog {} .fieldIndex
    (c.classify branchQuery).state = .partially ∧
      (c.classify branchDelayed).state = .executable ∧ branchDelayed.Flat ∧
      c.pushDown branchDelayed = branchDelayed := by
  have hbefore : ((Classifier.ofCatalog pairCatalog {} .fieldIndex).classify branchQuery).state =
      .partially := by decide +kernel
  have hafter : ((Classifier.ofCatalog pairCatalog {} .fieldIndex).classify branchDelayed).state =
      .executable := by decide +kernel
  have hflat : branchDelayed.Flat := by decide +kernel
  have hkept := (eased_state_of_pushDown pairCatalog {} .fieldIndex branchDelayed).2.2
  rw [hafter] at hkept
  exact ⟨hbefore, hafter, hflat, hkept (by decide) (by decide) hflat⟩

end IndexQuery
