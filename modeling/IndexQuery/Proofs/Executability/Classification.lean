import IndexQuery.Executability.Classifier
import IndexQuery.Proofs.Executability.State

/-! # The state of a query

    A classification carries states, contributors and texts. The state of a node is
    given by the states of its children alone, and so are most facts about states.

    * `Classifier.stateWith`: the state of a query, seen from the negations above it.
    * `Classifier.stateWith_junction`, `Classifier.stateWith_marked`: the state of a
      node, by the states of its children.
-/

namespace IndexQuery

/-- The state of the negation of what is in the given state. -/
def ExecMode.negate : ExecMode → ExecState → ExecState
  | .fieldIndex, s => s.swap
  | .globalIndex, .error => .error
  | .globalIndex, .ignorable => .ignorable
  | .globalIndex, _ => .nonExecutable

/-- A contradiction remains one beneath a negation. -/
@[simp] theorem ExecMode.negate_eq_error {mode : ExecMode} {s : ExecState} :
    mode.negate s = .error ↔ s = .error := by
  cases mode <;> cases s <;> decide

@[simp] theorem ExecMode.negate_eq_ignorable {mode : ExecMode} {s : ExecState} :
    mode.negate s = .ignorable ↔ s = .ignorable := by
  cases mode <;> cases s <;> decide

/-- The index of all records does not answer negations. -/
theorem ExecMode.negate_globalIndex_ne_executable (s : ExecState) :
    ExecMode.globalIndex.negate s ≠ .executable := by
  cases s <;> decide

namespace Classifier

/-- The classifier for the index of all records. -/
def amongAll (fields : FieldSets) : Classifier := ⟨fields, .globalIndex⟩

/-- The classifier for the index of one record. -/
def forOne (fields : FieldSets) : Classifier := ⟨fields, .fieldIndex⟩

variable (c : Classifier)

/-- The state of a query beneath negations, see `classifyWith`. -/
def stateWith (negated odd : Bool) (q : Query) : ExecState := (c.classifyWith negated odd q).state

theorem state_classify (q : Query) : (c.classify q).state = c.stateWith false false q := rfl

/-- The state that a chain of negations gives to what it negates. -/
def settled (odd : Bool) (s : ExecState) : ExecState := if odd then c.mode.negate s else s

@[simp] theorem settled_false (s : ExecState) : c.settled false s = s := rfl

@[simp] theorem settled_eq_error {odd : Bool} {s : ExecState} :
    c.settled odd s = .error ↔ s = .error := by
  cases odd <;> simp [settled]

@[simp] theorem settled_eq_ignorable {odd : Bool} {s : ExecState} :
    c.settled odd s = .ignorable ↔ s = .ignorable := by
  cases odd <;> simp [settled]

theorem state_negate (r : Classification) : (c.negate r).state = c.mode.negate r.state := by
  obtain ⟨state, contributors, states, exceeded⟩ := r
  unfold negate
  cases c.mode <;> cases state <;> rfl

theorem state_settle (odd : Bool) (r : Classification) :
    (c.settle odd r).state = c.settled odd r.state := by
  cases odd with
  | false => rfl
  | true => exact c.state_negate r

theorem classifyAll_eq_map (negated : Bool) (cs : List Query) :
    c.classifyAll negated cs = cs.map (c.classifyWith negated false) := by
  induction cs with
  | nil => rfl
  | cons q cs ih => rw [classifyAll, ih, List.map_cons]

/-! ## Nodes -/

@[simp] theorem stateWith_not (negated odd : Bool) (q : Query) :
    c.stateWith negated odd (.not q) = c.stateWith (!negated) (!odd) q := by
  rw [stateWith, classifyWith]
  rfl

@[simp] theorem stateWith_group (negated odd : Bool) (q : Query) :
    c.stateWith negated odd (.group q) = c.stateWith negated odd q := by
  rw [stateWith, classifyWith]
  rfl

@[simp] theorem stateWith_compare (negated odd : Bool) (leaf : Comparison) :
    c.stateWith negated odd (.compare leaf) = c.settled odd (c.leafState leaf) := by
  rw [stateWith, classifyWith, state_settle]
  rfl

@[simp] theorem stateWith_call (negated odd : Bool) (call : Call) :
    c.stateWith negated odd (.call call) = c.settled odd .nonExecutable := by
  rw [stateWith, classifyWith, state_settle]
  rfl

example (fields : FieldSets) (call : Call) :
    (forOne fields).stateWith false false (.not (.call call)) = .nonExecutable := by cbv

@[simp] theorem stateWith_junction (negated odd : Bool) (kind : Junction) (cs : List Query) :
    c.stateWith negated odd (.junction kind cs) =
      c.settled odd ((Combine.ofJunction kind negated).apply (cs.map (c.stateWith negated false))) := by
  rw [stateWith, classifyWith, state_settle, classifyAll_eq_map, ofJunction, List.map_map]
  rfl

/-- The state of a marked query that is a unit. -/
def unitState? (marker : Marker) (whole child : Query) : Option ExecState :=
  (c.unit? marker whole child).map (·.state)

/-- A marked query has its state as a unit, or that of its child. -/
@[simp] theorem stateWith_marked (negated odd : Bool) (m : Marker) (note : Option DropNote)
    (q : Query) :
    c.stateWith negated odd (.marked m note q) =
      c.settled odd
        ((c.unitState? m (.marked m note q) q).getD (c.stateWith negated false q)) := by
  rw [stateWith, classifyWith, state_settle, unitState?]
  cases c.unit? m (.marked m note q) q <;> rfl

/-! ## Leaves and units -/

/-- What has to be evaluated on the record is so or contradicts what is known. -/
theorem byRecord_cases (fields : List String) :
    c.byRecord fields = .error ∨ c.byRecord fields = .nonExecutable := by
  unfold byRecord
  split
  · exact .inl rfl
  · exact .inr rfl

theorem unanswerable_cases (field : String) :
    c.unanswerable field = .error ∨ c.unanswerable field = .nonExecutable := by
  unfold unanswerable
  split
  · exact .inl rfl
  · exact .inr rfl

/-- A range is judged by what is known of its field. -/
theorem unitState?_bounded {note : Option DropNote} {q : Query} {b : Bounds}
    (hb : (Query.marked .bounded note q).bounds? = some b) :
    c.unitState? .bounded (.marked .bounded note q) q =
      some (if b.field = noField then .ignorable
        else if c.isIndexed b.field then .executable
        else c.byRecord [b.field]) := by
  rw [unitState?, unit?, hb]
  rfl

/-- Units are judged alike in either mode, and never as a negation. -/
theorem unitState?_ne_negatedExecutable {m : Marker} {whole q : Query} :
    c.unitState? m whole q ≠ some .negatedExecutable := by
  intro h
  obtain ⟨r, hr, hstate⟩ := Option.map_eq_some_iff.1 h
  cases m with
  | bounded =>
    obtain ⟨b, -, rfl⟩ := Option.map_eq_some_iff.1 hr
    have hrecord := c.byRecord_cases [b.field]
    simp only [ofUnit] at hstate
    split at hstate
    · cases hstate
    · split at hstate
      · cases hstate
      · rw [hstate] at hrecord
        simp at hrecord
  | list | term | lenient | strict => cases hr
  | delayed | exceededTerm | indexHole | exceededValue | exceededOr | drop =>
    cases hr
    cases hstate
  | evaluationOnly =>
    cases hr
    have hrecord := c.byRecord_cases q.fields
    rw [show c.byRecord q.fields = .negatedExecutable from hstate] at hrecord
    simp at hrecord

end Classifier

end IndexQuery
