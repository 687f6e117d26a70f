import IndexQuery.Proofs.Executability.Modes

/-! # Negated junctions

    A negation above a junction has its children combined the other way, and the state that
    comes out is turned around. To negate the children turns their states around first.

    * `Combine.apply_map_swap`: the order has an influence only where both kinds of
      look-ups come together, for one of them prevails then.
    * `Classifier.stateWith_odd`: a negation turns the state of a query around, as far as
      the index of one record is concerned.
    * `state_not_junction`: a negated junction has the state of the dual junction of the
      negated children, or that state turned around.
    * `not_forall_state_not_junction`: turned around it is, for `!(A == 'a' && B != 'b')`.
-/

namespace IndexQuery

/-- The junction that a negation makes of a junction. -/
def Junction.dual : Junction → Junction
  | .and => .or
  | .or => .and

/-- Beneath a negation children are combined as in the dual junction above it. -/
theorem Combine.ofJunction_dual (kind : Junction) (negated : Bool) :
    Combine.ofJunction kind.dual negated = Combine.ofJunction kind (!negated) := by
  cases kind <;> cases negated <;> rfl

/-! ## States turned around -/

@[simp] theorem ExecState.swap_swap (s : ExecState) : s.swap.swap = s := by
  cases s <;> rfl

/-- Whether some of several states are answered by look-ups and others as negations of
    them. -/
def ExecState.mixes (states : List ExecState) : Bool :=
  states.contains .executable && states.contains .negatedExecutable

theorem Combine.contains_map_swap (states : List ExecState) (s : ExecState) :
    (states.map ExecState.swap).contains s = states.contains s.swap := by
  rw [Bool.eq_iff_iff, List.contains_iff_mem, List.contains_iff_mem, List.mem_map]
  constructor
  · rintro ⟨t, ht, rfl⟩
    rwa [ExecState.swap_swap]
  · intro hs
    exact ⟨s.swap, hs, s.swap_swap⟩

/-- States that are turned around before they are combined come to the state turned around,
    unless both kinds of look-ups come together: then the same kind prevails. -/
theorem Combine.apply_map_swap (combine : Combine) (states : List ExecState) :
    combine.apply (states.map ExecState.swap) =
      if ExecState.mixes states then combine.apply states else (combine.apply states).swap := by
  -- both sides are given by which states there are; turning them around exchanges two flags
  simp only [apply_eq_ofStates, ofStates, contains_map_swap, ExecState.swap, ExecState.mixes]
  generalize states.contains .executable = executable
  generalize states.contains .negatedExecutable = negated
  generalize states.contains .nonExecutable = non
  generalize states.contains .partially = partially
  generalize states.contains .error = error
  revert executable negated non partially error
  cases combine <;> decide

theorem ExecState.mixes_map_swap (states : List ExecState) :
    mixes (states.map swap) = mixes states := by
  simp only [mixes, Combine.contains_map_swap, swap, Bool.and_comm]

namespace Classifier

variable (fields : FieldSets)

/-- A negation more turns a state around. -/
theorem stateWith_odd (q : Query) (negated odd : Bool) :
    (forOne fields).stateWith negated (!odd) q =
      ((forOne fields).stateWith negated odd q).swap := by
  -- one more negation beneath the chain swaps its state once more
  have hsettled : ∀ odd s,
      (forOne fields).settled (!odd) s = ((forOne fields).settled odd s).swap := by
    intro odd s
    cases odd with
    | false => rfl
    | true => exact s.swap_swap.symm
  induction q using Query.induction generalizing negated odd with
  | not q ih =>
    rw [stateWith_not, stateWith_not]
    exact ih (!negated) (!odd)
  | group q ih =>
    rw [stateWith_group, stateWith_group]
    exact ih negated odd
  | junction kind cs _ =>
    rw [stateWith_junction, stateWith_junction, hsettled]
  | compare leaf => rw [stateWith_compare, stateWith_compare, hsettled]
  | call call => rw [stateWith_call, stateWith_call, hsettled]
  | marked m note q _ => rw [stateWith_marked, stateWith_marked, hsettled]

/-- The states of the negations of several queries. -/
def negatedStates (c : Classifier) (cs : List Query) : List ExecState :=
  cs.map fun q => (c.classify (.not q)).state

theorem state_dual_junction (c : Classifier) (kind : Junction) (cs : List Query) :
    (c.classify (.junction kind.dual (cs.map .not))).state =
      (Combine.ofJunction kind true).apply (c.negatedStates cs) := by
  rw [state_classify, stateWith_junction, settled_false, Combine.ofJunction_dual, List.map_map]
  rfl

end Classifier

/-! ## Negated junctions -/

/-- For one record a negated junction has the state of the dual junction of the negated
    children, save where some of these are answered by look-ups and others as negations:
    there it has that state turned around. Either both are answered or none is. -/
theorem state_not_junction (catalog : Catalog) (config : Config) (kind : Junction)
    (cs : List Query) :
    let c := Classifier.ofCatalog catalog config .fieldIndex
    let outer := (c.classify (.not (.junction kind cs))).state
    let inner := (c.classify (.junction kind.dual (cs.map .not))).state
    (outer = if ExecState.mixes (c.negatedStates cs) then inner.swap else inner) ∧
      c.mode.answers outer = c.mode.answers inner := by
  intro c outer inner
  -- each child is seen beneath one negation, with the negation right above it or further up
  have hstates : c.negatedStates cs =
      (cs.map (c.stateWith true false)).map ExecState.swap := by
    rw [Classifier.negatedStates, List.map_map]
    refine List.map_congr_left fun q _ => ?_
    rw [Classifier.state_classify, Classifier.stateWith_not]
    exact Classifier.stateWith_odd _ q true false
  have houter : outer =
      ((Combine.ofJunction kind true).apply (cs.map (c.stateWith true false))).swap := by
    show (c.classify (.not (.junction kind cs))).state = _
    rw [Classifier.state_classify, Classifier.stateWith_not, Classifier.stateWith_junction]
    rfl
  have hinner : inner = (Combine.ofJunction kind true).apply (c.negatedStates cs) :=
    c.state_dual_junction kind cs
  have hstate : outer =
      if ExecState.mixes (c.negatedStates cs) then inner.swap else inner := by
    rw [houter, hinner, hstates, ExecState.mixes_map_swap, Combine.apply_map_swap]
    split <;> rfl
  refine ⟨hstate, ?_⟩
  have hanswers : ∀ s : ExecState, c.mode.answers s.swap = c.mode.answers s := by
    intro s
    cases s <;> rfl
  rw [hstate]
  split
  · exact hanswers inner
  · rfl

/-- `A == 'a'` and `B != 'b'` -/
def mixedQueries : List Query :=
  [.compareWith .eq "A" (.string "a"), .compareWith .ne "B" (.string "b")]

/-- The negations of `A == 'a' && B != 'b'` and of `A == 'a' || B != 'b'` have the states
    turned around. -/
theorem not_forall_state_not_junction :
    (¬ ∀ (catalog : Catalog) (config : Config) (cs : List Query), cs ≠ [] →
        let c := Classifier.ofCatalog catalog config .fieldIndex
        (c.classify (.not (.junction .and cs))).state =
          (c.classify (.junction .or (cs.map .not))).state) ∧
      ¬ ∀ (catalog : Catalog) (config : Config) (cs : List Query), cs ≠ [] →
        let c := Classifier.ofCatalog catalog config .fieldIndex
        (c.classify (.not (.junction .or cs))).state =
          (c.classify (.junction .and (cs.map .not))).state := by
  constructor
  · intro hall
    have hand : ExecState.executable = .negatedExecutable :=
      hall pairCatalog {} mixedQueries (by decide)
    cases hand
  · intro hall
    have hor : ExecState.negatedExecutable = .executable :=
      hall pairCatalog {} mixedQueries (by decide)
    cases hor

end IndexQuery
