import IndexQuery.Plan.Basic
import IndexQuery.Plan.Options
import IndexQuery.Query.Bounds
import IndexQuery.Query.Printer

/-! # Compiling queries

    A query becomes a plan of look-ups for one record. A clause that the index
    cannot answer becomes none:

    * a conjunction goes without it, and then finds more;
    * a disjunction with such a child has no plan, for it could not find enough;
    * beneath a negation to find more is to miss matches, so that a conjunction
      with such a child has no plan either.

    Negations need a look-up beside them, or above, that finds the records.
-/

namespace IndexQuery

/-- What the compilation of a query consults. -/
structure Compiler where
  record : RecordId
  options : PlanOptions

namespace Compiler

/-! ## Leaves -/

/-- The look-up of a field. -/
def lookup (c : Compiler) (field : String) (test : ValueTest) : Plan Lookup :=
  .leaf
    { field, test
      record := c.record
      aggregate := c.options.aggregates field
      termFrequency := c.options.termFrequencyFields.contains field
      window := c.options.window }

/-- The look-up of the values that fit a pattern. -/
def regexLookup (c : Compiler) (field text : String) : Except PlanError (Plan Lookup) :=
  match Pattern.ofText? c.options.properties text with
  | none => .error (.invalidRegex field text)
  | some pattern =>
    -- nothing of the pattern narrows the range of values down
    if pattern.front.isTrivial && c.options.fullScanDisabled then .error (.fullScan field text)
    else .ok (c.lookup field (.regex pattern))

/-- The plan of a comparison of an indexed field with text. A bound on its own is
    not looked up. -/
def matchPlan (c : Compiler) (op : CompareOp) (field text : String) :
    Except PlanError (Option (Plan Lookup)) :=
  match op with
  | .eq => .ok (some (c.lookup field (.point text)))
  | .ne => .ok (some (c.lookup field (.point text)).negate)
  | .regex => (c.regexLookup field text).map some
  | .notRegex => (c.regexLookup field text).map fun p => some p.negate
  | .lt | .le | .gt | .ge => .ok none

/-- The plan of a comparison. -/
def comparisonPlan (c : Compiler) (leaf : Comparison) : Except PlanError (Option (Plan Lookup)) :=
  if leaf.field = anyField || leaf.field = noField then .ok none
  else
    match leaf.literal.text? with
    | none =>
      -- a missing value leaves no entries, and this field is in no record
      if c.options.indexOnlyFields.contains leaf.field then .error (.nullIndexOnly leaf.field)
      else .ok none
    | some text =>
      if c.options.isIndexed leaf.field then c.matchPlan leaf.op leaf.field text else .ok none

/-- The plan of a range. -/
def rangePlan (c : Compiler) (b : Bounds) : Option (Plan Lookup) :=
  if c.options.isIndexed b.field then do
    let lower ← b.lower.literal.text?
    let upper ← b.upper.literal.text?
    return c.lookup b.field (.range lower (b.lower.op = .ge) upper (b.upper.op = .le))
  else none

/-! ## Trees -/

mutual

/-- The plan of a query, if it has one. `negated` says whether an odd number of
    negations stands above it. -/
def planWith (c : Compiler) (negated : Bool) : Query → Except PlanError (Option (Plan Lookup))
  | .junction kind cs => do
    match ← c.planAll negated (kind = .or || negated) cs with
    | some plans => return Plan.ofJunction? kind plans
    | none => return none
  | .not child => do return (← c.planWith (!negated) child).map Plan.negate
  | .group child => c.planWith negated child
  | .compare leaf => c.comparisonPlan leaf
  | .call _ => .ok none
  | .marked m note child =>
    match m with
    | .bounded =>
      match (Query.marked .bounded note child).bounds? with
      | some b => .ok (c.rangePlan b)
      | none => c.planWith negated child
    | .drop => .ok (some (.dropped ((note.map DropNote.reason).getD "")))
    | .exceededValue | .exceededOr | .list | .term | .lenient | .strict => c.planWith negated child
    | .delayed | .evaluationOnly | .exceededTerm | .indexHole => .ok none

/-- The plans of the children of a junction. If every one is `required`, there are
    none unless all of them have a plan. -/
def planAll (c : Compiler) (negated required : Bool) :
    List Query → Except PlanError (Option (List (Plan Lookup)))
  | [] => .ok (some [])
  | q :: rest => do
    match ← c.planWith negated q with
    | some plan => return (← c.planAll negated required rest).map (plan :: ·)
    | none => if required then return none else c.planAll negated required rest

end

/-! ## Anchors -/

mutual

/-- The first negation without an anchor. An intersection anchors its children when
    one of them is no negation. -/
def unanchored? (anchored : Bool) : Plan Lookup → Option (Plan Lookup)
  | .intersection cs => unanchoredAmong? (anchored || cs.any fun p => !p.isNegation) cs
  | .union cs => unanchoredAmong? anchored cs
  | .negation p => if anchored then unanchored? true p else some (.negation p)
  | .leaf _ | .dropped _ => none

/-- The first negation without an anchor among several plans. -/
def unanchoredAmong? (anchored : Bool) : List (Plan Lookup) → Option (Plan Lookup)
  | [] => none
  | p :: ps => (unanchored? anchored p).or (unanchoredAmong? anchored ps)

end

end Compiler

namespace Query

/-- The plan of a query for one record. -/
def compile (q : Query) (record : RecordId) (options : PlanOptions) :
    Except PlanError (Plan Lookup) := do
  match ← Compiler.planWith ⟨record, options⟩ false q with
  | none => .error (.unanchored q.render)
  | some plan =>
    if plan.isNegation then .error (.topLevelNegation q.render)
    else
      match Compiler.unanchored? false plan with
      | some negation => .error (.unanchoredNegation negation.describe)
      | none => return plan

end Query

end IndexQuery
