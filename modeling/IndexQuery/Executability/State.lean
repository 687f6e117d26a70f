import IndexQuery.Query.Basic

/-! # Executability

    How far a query can be answered from the index, and how the answers for the
    children of a junction combine.
-/

namespace IndexQuery

/-- How far a query can be answered from the index. -/
inductive ExecState where
  /-- By index look-ups. -/
  | executable
  /-- As the negation of look-ups in the index of a record. -/
  | negatedExecutable
  /-- Only by evaluating the record. -/
  | nonExecutable
  /-- In some branches but not in others. -/
  | partially
  /-- The query asks for nothing. -/
  | ignorable
  /-- The query contradicts what is known of its fields. -/
  | error
deriving DecidableEq, Repr, Inhabited

namespace ExecState

/-- Every state, in the order of reports. -/
def all : List ExecState :=
  [.executable, .negatedExecutable, .nonExecutable, .partially, .ignorable, .error]

/-- The name of a state in reports. -/
def label : ExecState → String
  | .executable => "EXECUTABLE"
  | .negatedExecutable => "NEGATED_EXECUTABLE"
  | .nonExecutable => "NON_EXECUTABLE"
  | .partially => "PARTIAL"
  | .ignorable => "IGNORABLE"
  | .error => "ERROR"

/-- The place of a state in reports. -/
def position : ExecState → Nat
  | .executable => 0
  | .negatedExecutable => 1
  | .nonExecutable => 2
  | .partially => 3
  | .ignorable => 4
  | .error => 5

instance : Ord ExecState := ⟨compareOn position⟩

instance : Std.TransOrd ExecState := inferInstanceAs (Std.TransCmp (compareOn position))

instance : Std.LawfulEqOrd ExecState where
  eq_of_compare {a b} h := by
    revert h
    cases a <;> cases b <;> decide

/-- The state of the negation in the index of a record. -/
def swap : ExecState → ExecState
  | .executable => .negatedExecutable
  | .negatedExecutable => .executable
  | s => s

end ExecState

/-- Where a query is to be answered. -/
inductive ExecMode where
  /-- From the index of all records. -/
  | globalIndex
  /-- From the index of each record. -/
  | fieldIndex
deriving DecidableEq, Repr, Inhabited

/-- Whether a query in the given state is answered by look-ups alone. -/
def ExecMode.answers (mode : ExecMode) : ExecState → Bool
  | .executable => true
  | .negatedExecutable => mode = .fieldIndex
  | _ => false

/-- How the states of the children of a junction combine. -/
inductive Combine where
  /-- Every child has to be executable. -/
  | allOrNone
  /-- One executable child anchors the others. -/
  | allOrSome
deriving DecidableEq, Repr, Inhabited

namespace Combine

/-- A disjunction needs all of its children, a conjunction some of them; beneath a
    negation it is the other way around. -/
def ofJunction (kind : Junction) (negated : Bool) : Combine :=
  match kind, negated with
  | .and, false | .or, true => .allOrSome
  | .and, true | .or, false => .allOrNone

/-- The state of several children together, of which at least two differ. -/
def mixed (combine : Combine) (states : List ExecState) : ExecState :=
  match combine with
  | .allOrNone =>
    if states.contains .error then .error
    else if states.contains .partially || states.contains .nonExecutable then .partially
    else .negatedExecutable
  | .allOrSome =>
    if states.contains .error then .error
    else if states.contains .partially then .partially
    else if states.contains .executable then .executable
    else if states.contains .negatedExecutable then .negatedExecutable
    else .nonExecutable

/-- The state of several children together. Children that ask for nothing do not
    count, and children of one state have it together. -/
def apply (combine : Combine) (states : List ExecState) : ExecState :=
  match (states.filter (· ≠ .ignorable)).eraseDups with
  | [] => .ignorable
  | [s] => s
  | relevant => combine.mixed relevant

/-- The states of the children that account for the combined state. -/
def reported (combine : Combine) (state : ExecState) : List ExecState :=
  match combine, state with
  | .allOrNone, .partially => [.partially, .nonExecutable]
  | .allOrNone, .negatedExecutable => [.executable, .negatedExecutable]
  | _, s => [s]

end Combine

end IndexQuery
