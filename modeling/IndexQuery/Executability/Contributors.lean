import IndexQuery.Executability.State
import IndexQuery.Sorted.Map

/-! # Contributors to a state

    A classification keeps, for each state, the texts of the queries that brought
    it about, and shows them in a summary line.
-/

namespace IndexQuery

/-- The texts that contribute to each state. -/
structure Contributors where
  terms : SortedMap ExecState (SortedSet String) := ∅
deriving DecidableEq, Inhabited

namespace Contributors

/-- No contributor at all. -/
def none : Contributors := {}

/-- A single text. -/
def single (state : ExecState) (term : String) : Contributors :=
  ⟨(∅ : SortedMap ExecState (SortedSet String)).put state (.singleton term)⟩

/-- The texts that contribute to a state. -/
def termsOf (c : Contributors) (state : ExecState) : SortedSet String :=
  (c.terms.get? state).getD ∅

/-- Whether no text contributes to any state. -/
def isEmpty (c : Contributors) : Bool := c.terms.values.all SortedSet.isEmpty

/-- Adds texts to those of a state. -/
def add (c : Contributors) (state : ExecState) (terms : SortedSet String) : Contributors :=
  if terms.isEmpty then c else ⟨c.terms.put state ((c.termsOf state).union terms)⟩

/-- Adds the texts that another one has for the given states. -/
def absorb (c other : Contributors) (states : List ExecState) : Contributors :=
  states.foldl (fun c s => c.add s (other.termsOf s)) c

/-- Moves the texts of each state to the state given for it. -/
def relabel (c : Contributors) (target : ExecState → ExecState) : Contributors :=
  c.terms.entries.foldl (fun out (s, terms) => out.add (target s) terms) none

/-- One state in a summary: its texts or, if there are more than `limit`, their
    number and the first ones. -/
def summaryPart (limit : Nat) (state : ExecState) (terms : SortedSet String) : String :=
  let shown := "[" ++ ", ".intercalate (terms.toList.take limit) ++ "]"
  if limit < terms.size then state.label ++ ":" ++ toString terms.size ++ " terms " ++ shown
  else state.label ++ ":" ++ shown

/-- The summary line. -/
def summary (c : Contributors) (limit : Nat) : String :=
  let parts := (c.terms.entries.filter fun (_, terms) => !terms.isEmpty).map
    fun (s, terms) => summaryPart limit s terms
  "Summary: " ++ "; ".intercalate parts

end Contributors

end IndexQuery
