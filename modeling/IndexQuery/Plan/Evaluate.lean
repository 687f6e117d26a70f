import IndexQuery.Lookup.Leaf
import IndexQuery.Plan.Basic

/-! # Evaluating plans

    A running plan has leaves with cursors and memos of their own. Evaluating it
    says whether the record matches and which values were collected on the way.

    * An intersection stops at the first child that does not match.
    * A union evaluates every child, for the values.
    * What is collected beneath a negation is forgotten.
-/

namespace IndexQuery

/-- A plan that can be evaluated. -/
abbrev RunningPlan := Plan Leaf

/-- The running form of a plan on a source. -/
def Plan.start (plan : Plan Lookup) (source : Source) : RunningPlan :=
  plan.map fun l => Leaf.start l source

namespace RunningPlan

/-- The plan that runs. -/
def plan (p : RunningPlan) : Plan Lookup := p.map Leaf.lookup

/-- The plan as it was at the start. -/
def fresh (p : RunningPlan) : RunningPlan := p.map Leaf.fresh

/-- The plan without remembered answers. -/
def reset (p : RunningPlan) : RunningPlan := p.map Leaf.reset

mutual

/-- Evaluates a plan and adds the values it collects to a document. -/
def evaluateInto : RunningPlan → Document → Outcome RunningPlan
  | .leaf l, d =>
    let r := l.evaluate d
    ⟨r.matched, r.document, .leaf r.next⟩
  | .intersection cs, d =>
    let r := evaluateEvery cs d
    ⟨r.matched, r.document, .intersection r.next⟩
  | .union cs, d =>
    let r := evaluateSome cs d
    ⟨r.matched, r.document, .union r.next⟩
  | .negation p, d =>
    let r := evaluateInto p ∅
    ⟨!r.matched, d, .negation r.next⟩
  | .dropped reason, d => ⟨false, d, .dropped reason⟩

/-- Evaluates plans up to the first that does not match. -/
def evaluateEvery : List RunningPlan → Document → Outcome (List RunningPlan)
  | [], d => ⟨true, d, []⟩
  | c :: cs, d =>
    let r := evaluateInto c d
    if r.matched then
      let rest := evaluateEvery cs r.document
      ⟨rest.matched, rest.document, r.next :: rest.next⟩
    else ⟨false, r.document, r.next :: cs⟩

/-- Evaluates all plans; one match is enough. -/
def evaluateSome : List RunningPlan → Document → Outcome (List RunningPlan)
  | [], d => ⟨false, d, []⟩
  | c :: cs, d =>
    let r := evaluateInto c d
    let rest := evaluateSome cs r.document
    ⟨r.matched || rest.matched, rest.document, r.next :: rest.next⟩

end

/-- Evaluates a plan. Without a match there is no document. -/
def evaluate (p : RunningPlan) : Outcome RunningPlan :=
  let r := evaluateInto p ∅
  { r with document := if r.matched then r.document else ∅ }

end RunningPlan

end IndexQuery
