import IndexQuery.Catalog
import IndexQuery.Config.Basic
import IndexQuery.Executability.Contributors
import IndexQuery.Query.Printer

/-! # Classifying a query

    Every node of a query gets a state, from the leaves up:

    * a comparison is judged by its operator and by what is known of its field;
    * a junction combines the states of its children;
    * a negation turns the state of what it negates around. A chain of negations
      is judged as a whole, so that an even number of them cancels.

    A marker either stands for a unit, which has one state for all of its nodes,
    or hands on the state of its child.
-/

namespace IndexQuery

/-- What the classification of a query consults. -/
structure Classifier where
  fields : FieldSets
  mode : ExecMode

/-- The classification of a query. -/
structure Classification where
  /-- The state of the query. -/
  state : ExecState
  /-- The texts that brought the state about. -/
  contributors : Contributors
  /-- The state of every node, in pre-order. -/
  states : List ExecState
  /-- The texts of the expansions that ran into their limit. -/
  exceeded : List String := []
deriving DecidableEq, Inhabited

namespace Classifier

/-- The classifier for a catalog and a configuration. -/
def ofCatalog (catalog : Catalog) (config : Config) (mode : ExecMode) : Classifier :=
  ⟨(FieldSets.resolve catalog config.datatypeFilter).withIndexOnly config.indexOnlyFields, mode⟩

/-! ## Leaves -/

/-- The state of a query that has to be evaluated on the record, where some fields
    have no value. -/
def byRecord (c : Classifier) (fields : List String) : ExecState :=
  if fields.any c.fields.nonEvent.contains then .error else .nonExecutable

/-- The state of an equality or a pattern that the index cannot answer. -/
def unanswerable (c : Classifier) (field : String) : ExecState :=
  if c.fields.indexOnly.contains field then .error else .nonExecutable

/-- Whether the index answers comparisons of the field. -/
def isIndexed (c : Classifier) (field : String) : Bool := c.fields.indexed.contains field

/-- The state of a comparison that names a field. -/
def fieldState (c : Classifier) (leaf : Comparison) : ExecState :=
  let indexed := c.isIndexed leaf.field && !leaf.literal.isNull
  match leaf.op with
  | .eq | .regex => if indexed then .executable else c.unanswerable leaf.field
  -- only the index of one record tells that it lacks a value
  | .ne =>
    if indexed && c.mode = .fieldIndex then .negatedExecutable else c.unanswerable leaf.field
  | _ => c.byRecord [leaf.field]

/-- The state of a comparison. One that stands for any field finds its values in
    the index; one without a field asks for nothing. -/
def leafState (c : Classifier) (leaf : Comparison) : ExecState :=
  if leaf.field = noField then .ignorable
  else if leaf.field = anyField then
    match leaf.op with
    | .eq | .regex => if leaf.literal.isNull then .nonExecutable else .executable
    | _ => .nonExecutable
  else c.fieldState leaf

/-! ## Classifications -/

/-- The classification of a unit: one state for all nodes of `unit`, brought about
    by the text of `cause`. -/
def ofUnit (unit cause : Query) (state : ExecState) : Classification :=
  { state
    contributors := if state = .ignorable then .none else .single state cause.render
    states := .replicate unit.nodeCount state }

/-- The classification of a node that hands on the state of its child. -/
def handOn (child : Classification) : Classification :=
  { child with states := child.state :: child.states }

/-- The classification of a junction, by those of its children. -/
def ofJunction (combine : Combine) (children : List Classification) : Classification :=
  let state := combine.apply (children.map (·.state))
  { state
    contributors := children.foldl (fun sum r => sum.absorb r.contributors (combine.reported state)) .none
    states := state :: children.flatMap (·.states)
    exceeded := children.flatMap (·.exceeded) }

/-- The classification beneath an odd number of negations, whose nodes keep their
    states. The index of a record tells what it does not hold; the index of all
    records does not. -/
def negate (c : Classifier) (r : Classification) : Classification :=
  match c.mode with
  | .fieldIndex =>
    match r.state with
    | .executable | .negatedExecutable =>
      { r with state := r.state.swap, contributors := r.contributors.relabel ExecState.swap }
    | _ => r
  | .globalIndex =>
    match r.state with
    | .error | .ignorable => r
    | _ =>
      { r with
        -- a record that has no entry is not found, so the record itself has to be asked
        state := .nonExecutable
        contributors := r.contributors.relabel fun s => if s = .error then .error else .nonExecutable }

/-- The classification of what a chain of negations negates, seen from the chain. -/
def settle (c : Classifier) (odd : Bool) (r : Classification) : Classification :=
  if odd then c.negate r else r

/-- The classification of a marked query that is a unit. -/
def unit? (c : Classifier) (marker : Marker) (whole child : Query) : Option Classification :=
  match marker with
  | .bounded =>
    whole.bounds?.map fun b =>
      ofUnit whole whole <|
        if b.field = noField then .ignorable
        else if c.isIndexed b.field then .executable
        else c.byRecord [b.field]
  | .list | .term | .lenient | .strict => none
  | .delayed | .exceededTerm | .indexHole => some (ofUnit whole child .nonExecutable)
  | .evaluationOnly => some (ofUnit whole child (c.byRecord child.fields))
  | .exceededValue | .exceededOr =>
    some { ofUnit whole whole .executable with exceeded := [whole.render] }
  | .drop => some (ofUnit whole whole .ignorable)

mutual

/-- Classifies a query. `negated` says whether an odd number of negations stands
    above it, and `odd` whether an odd number of them stands right above it, with
    nothing but groups between. -/
def classifyWith (c : Classifier) (negated odd : Bool) : Query → Classification
  | .not child => handOn (c.classifyWith (!negated) (!odd) child)
  | .group child => handOn (c.classifyWith negated odd child)
  | .junction kind children =>
    c.settle odd (ofJunction (.ofJunction kind negated) (c.classifyAll negated children))
  | .compare leaf => c.settle odd (ofUnit (.compare leaf) (.compare leaf) (c.leafState leaf))
  | .call call => c.settle odd (ofUnit (.call call) (.call call) .nonExecutable)
  | .marked marker note child =>
    c.settle odd <|
      (c.unit? marker (.marked marker note child) child).getD
        (handOn (c.classifyWith negated false child))

/-- Classifies the children of a junction. -/
def classifyAll (c : Classifier) (negated : Bool) : List Query → List Classification
  | [] => []
  | child :: rest => c.classifyWith negated false child :: c.classifyAll negated rest

end

/-- Classifies a query. -/
def classify (c : Classifier) (q : Query) : Classification := c.classifyWith false false q

/-- Whether a query is answered by look-ups alone. -/
def answers (c : Classifier) (q : Query) : Bool := c.mode.answers (c.classify q).state

end Classifier

end IndexQuery
