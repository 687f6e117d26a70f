import IndexQuery.Proofs.Lookup.Running

/-! # Copies of a running plan

    A running plan is evaluated again and again, and copied for others to evaluate. Each
    evaluation moves cursors and fills memos. None of this is ever seen: what a plan
    answers is decided by its look-ups and its source, which no operation touches.

    * `RunningPlan.fresh_evaluate`: evaluation changes nothing but what `fresh` takes back.
    * `RunningPlan.document_fresh`, `RunningPlan.matched_fresh`: a plan answers as it would
      at the start.
    * `Session.fresh_of_mem_run`: after any run all copies would be the same at the start.
    * `Session.answers_alike`: all copies answer alike, whatever was done to them before.
-/

namespace IndexQuery

/-! ## Plans with other leaves -/

namespace Plan

variable {α β γ : Type}

theorem mapAll_eq_map (f : α → β) (ps : List (Plan α)) : mapAll f ps = ps.map (·.map f) := by
  induction ps with
  | nil => rfl
  | cons p ps ih => rw [mapAll, ih, List.map_cons]

theorem map_map (f : α → β) (g : β → γ) (p : Plan α) :
    (p.map f).map g = p.map fun a => g (f a) := by
  induction p using Plan.induction with
  | intersection cs ih | union cs ih =>
    simp only [map, mapAll_eq_map, List.map_map, Function.comp_def]
    rw [List.map_congr_left ih]
  | leaf a => rfl
  | negation p ih => rw [map, map, map, ih]
  | dropped reason => rfl

mutual

theorem leaves_map (f : α → β) : ∀ p : Plan α, (p.map f).leaves = p.leaves.map f
  | .intersection cs | .union cs => by
    have h := leavesAll_mapAll f cs
    rwa [map, leaves, leaves]
  | .leaf a => by rw [map, leaves, leaves, List.map_singleton]
  | .negation p => by rw [map, leaves, leaves, leaves_map f p]
  | .dropped reason => by rw [map, leaves, leaves, List.map_nil]

theorem leavesAll_mapAll (f : α → β) :
    ∀ ps : List (Plan α), leavesAll (mapAll f ps) = (leavesAll ps).map f
  | [] => rfl
  | p :: ps => by
    rw [mapAll, leavesAll, leavesAll, List.map_append, leaves_map f p, leavesAll_mapAll f ps]

end

mutual

theorem encountered_map (f : α → β) (answer : β → Bool) :
    ∀ p : Plan α, (p.map f).encountered answer = (p.encountered fun a => answer (f a)).map f
  | .intersection cs => by
    have h := encounteredEvery_mapAll f answer cs
    rwa [map, encountered, encountered]
  | .union cs => by
    have h := encounteredSome_mapAll f answer cs
    rwa [map, encountered, encountered]
  | .leaf a => by
    rw [map, encountered, encountered]
    split <;> rfl
  | .negation p => by rw [map, encountered, encountered, List.map_nil]
  | .dropped reason => by rw [map, encountered, encountered, List.map_nil]

theorem encounteredEvery_mapAll (f : α → β) (answer : β → Bool) :
    ∀ ps : List (Plan α), encounteredEvery answer (mapAll f ps) =
      (encounteredEvery (fun a => answer (f a)) ps).map f
  | [] => rfl
  | p :: ps => by
    rw [mapAll, encounteredEvery, encounteredEvery, List.map_append, encountered_map f answer p,
      encounteredEvery_mapAll f answer ps, holds_map]
    split <;> rfl

theorem encounteredSome_mapAll (f : α → β) (answer : β → Bool) :
    ∀ ps : List (Plan α), encounteredSome answer (mapAll f ps) =
      (encounteredSome (fun a => answer (f a)) ps).map f
  | [] => rfl
  | p :: ps => by
    rw [mapAll, encounteredSome, encounteredSome, List.map_append, encountered_map f answer p,
      encounteredSome_mapAll f answer ps]

end

end Plan

/-! ## What a running plan depends on -/

namespace RunningPlan

variable (p : RunningPlan)

theorem fresh_start (plan : Plan Lookup) (source : Source) :
    (plan.start source).fresh = plan.start source := by
  rw [fresh, Plan.start, Plan.map_map]
  rfl

theorem fresh_fresh : p.fresh.fresh = p.fresh := by
  rw [fresh, fresh, Plan.map_map]
  rfl

theorem fresh_reset : p.reset.fresh = p.fresh := by
  rw [fresh, reset, Plan.map_map]
  rfl

theorem plan_fresh : p.fresh.plan = p.plan := by
  rw [plan, plan, fresh, Plan.map_map]
  rfl

theorem plan_start (plan : Plan Lookup) (source : Source) :
    RunningPlan.plan (plan.start source) = plan := by
  rw [RunningPlan.plan, Plan.start, Plan.map_map]
  induction plan using Plan.induction with
  | intersection cs ih | union cs ih =>
    rw [Plan.map, Plan.mapAll_eq_map, List.map_congr_left ih, List.map_id']
  | leaf l => rfl
  | negation p ih => rw [Plan.map, ih]
  | dropped reason => rfl

mutual

/-- Evaluating a plan changes nothing but cursors and memos. -/
theorem fresh_evaluateInto :
    ∀ (p : RunningPlan) (d : Document), fresh (evaluateInto p d).next = fresh p
  | .leaf l, d => by
    have hleaf := l.fresh_evaluate d
    simp only [evaluateInto, fresh, Plan.map, hleaf]
  | .intersection cs, d => by
    have hchildren := fresh_evaluateEvery cs d
    simp only [evaluateInto, fresh, Plan.map, hchildren]
  | .union cs, d => by
    have hchildren := fresh_evaluateSome cs d
    simp only [evaluateInto, fresh, Plan.map, hchildren]
  | .negation p, d => by
    have hinner := fresh_evaluateInto p ∅
    rw [fresh, fresh] at hinner
    simp only [evaluateInto, fresh, Plan.map, hinner]
  | .dropped reason, d => by rw [evaluateInto]

theorem fresh_evaluateEvery :
    ∀ (ps : List RunningPlan) (d : Document),
      Plan.mapAll Leaf.fresh (evaluateEvery ps d).next = Plan.mapAll Leaf.fresh ps
  | [], d => by rw [evaluateEvery]
  | p :: ps, d => by
    have hp := fresh_evaluateInto p d
    have hps := fresh_evaluateEvery ps (evaluateInto p d).document
    rw [fresh, fresh] at hp
    simp only [evaluateEvery]
    -- behind a child that does not match nothing is evaluated
    split
    · simp only [Plan.mapAll, hp, hps]
    · simp only [Plan.mapAll, hp]

theorem fresh_evaluateSome :
    ∀ (ps : List RunningPlan) (d : Document),
      Plan.mapAll Leaf.fresh (evaluateSome ps d).next = Plan.mapAll Leaf.fresh ps
  | [], d => by rw [evaluateSome]
  | p :: ps, d => by
    have hp := fresh_evaluateInto p d
    have hps := fresh_evaluateSome ps (evaluateInto p d).document
    rw [fresh, fresh] at hp
    simp only [evaluateSome, Plan.mapAll, hp, hps]

end

theorem fresh_evaluate : fresh p.evaluate.next = fresh p := fresh_evaluateInto p ∅

/-- A plan matches if it would match at the start. -/
theorem matched_fresh : p.fresh.evaluate.matched = p.evaluate.matched := by
  show (evaluateInto p.fresh ∅).matched = (evaluateInto p ∅).matched
  rw [matched_evaluateInto, matched_evaluateInto, fresh, Plan.holds_map]
  simp only [Leaf.matched_fresh]

theorem collect_map_fresh (d : Document) (leaves : List Leaf) :
    d.collect (leaves.map Leaf.fresh) = d.collect leaves := by
  unfold Document.collect
  rw [List.foldl_map]
  rfl

/-- A plan collects what it would collect at the start. -/
theorem document_fresh : p.fresh.evaluate.document = p.evaluate.document := by
  have hencountered : p.fresh.encountered Leaf.matched =
      (p.encountered Leaf.matched).map Leaf.fresh := by
    rw [fresh, Plan.encountered_map]
    simp only [Leaf.matched_fresh]
  rw [document_evaluate, document_evaluate, matched_fresh, hencountered, collect_map_fresh]

/-- How many answers the leaves of a plan remember, of those that do. -/
def remembered : List (Option Nat) := p.leaves.map Leaf.remembered?

/-- Whether a plan remembers no answer. -/
def Forgetful : Prop := ∀ n, some n ∈ p.remembered → n = 0

/-- A leaf that remembers nothing is one without answers. -/
theorem forgetful_of_leaves (h : ∀ leaf ∈ p.leaves, leaf.memo.size = 0) : p.Forgetful := by
  intro n hn
  obtain ⟨leaf, hleaf, hremembered⟩ := List.mem_map.1 hn
  unfold Leaf.remembered? at hremembered
  split at hremembered
  · rw [← h leaf hleaf]
    exact (Option.some.inj hremembered).symm
  · cases hremembered

theorem forgetful_fresh : p.fresh.Forgetful := by
  refine forgetful_of_leaves _ fun leaf hleaf => ?_
  rw [fresh, Plan.leaves_map] at hleaf
  obtain ⟨leaf, -, rfl⟩ := List.mem_map.1 hleaf
  exact Std.HashMap.size_empty

theorem forgetful_reset : p.reset.Forgetful := by
  refine forgetful_of_leaves _ fun leaf hleaf => ?_
  rw [reset, Plan.leaves_map] at hleaf
  obtain ⟨leaf, -, rfl⟩ := List.mem_map.1 hleaf
  exact Std.HashMap.size_empty

end RunningPlan

/-! ## Runs -/

/-- What is done to one of several running plans. -/
inductive Operation where
  | evaluate (place : Nat)
  | reset (place : Nat)
  | clone (place : Nat)
  | snapshot (place : Nat)
deriving DecidableEq, Repr

/-- The place of the plan that an operation is done to. -/
def Operation.place : Operation → Nat
  | .evaluate i | .reset i | .clone i | .snapshot i => i

/-- Running plans side by side. -/
abbrev Session := List RunningPlan

namespace Session

/-- The plans after an operation. A copy comes last. -/
def apply (s : Session) : Operation → Session
  | .evaluate i => s.modify i fun p => p.evaluate.next
  | .reset i => s.modify i RunningPlan.reset
  | .clone i => s ++ (s[i]?.map RunningPlan.fresh).toList
  | .snapshot i => s ++ (s[i]?.map fun p => p.fresh.reset).toList

/-- The plans after several operations. -/
def run (s : Session) (ops : List Operation) : Session := ops.foldl apply s

variable {s : Session} {op : Operation} {p : RunningPlan}

/-- A plan after an operation is one from before, or what an operation makes of it. -/
theorem mem_apply (h : p ∈ s.apply op) :
    ∃ q ∈ s, p = q ∨ p = q.evaluate.next ∨ p = q.reset ∨ p = q.fresh ∨ p = q.fresh.reset := by
  -- operations either change one plan in place or append what they make of it
  have of_modify : ∀ (i : Nat) (f : RunningPlan → RunningPlan), p ∈ s.modify i f →
      ∃ q ∈ s, p = q ∨ p = f q := by
    intro i f hp
    obtain ⟨j, hj⟩ := List.mem_iff_getElem?.1 hp
    rw [List.getElem?_modify] at hj
    obtain ⟨q, hq, rfl⟩ := Option.map_eq_some_iff.1 hj
    refine ⟨q, List.mem_of_getElem? hq, ?_⟩
    split
    · exact .inr rfl
    · exact .inl rfl
  have of_append : ∀ (i : Nat) (f : RunningPlan → RunningPlan), p ∈ s ++ (s[i]?.map f).toList →
      ∃ q ∈ s, p = q ∨ p = f q := by
    intro i f hp
    rcases List.mem_append.1 hp with hp | hp
    · exact ⟨p, hp, .inl rfl⟩
    · obtain ⟨q, hq, rfl⟩ := Option.map_eq_some_iff.1 (Option.mem_toList.1 hp)
      exact ⟨q, List.mem_of_getElem? hq, .inr rfl⟩
  cases op with
  | evaluate i =>
    obtain ⟨q, hq, hp⟩ := of_modify i _ h
    exact ⟨q, hq, hp.imp_right .inl⟩
  | reset i =>
    obtain ⟨q, hq, hp⟩ := of_modify i _ h
    exact ⟨q, hq, hp.imp_right fun h => .inr (.inl h)⟩
  | clone i =>
    obtain ⟨q, hq, hp⟩ := of_append i _ h
    exact ⟨q, hq, hp.imp_right fun h => .inr (.inr (.inl h))⟩
  | snapshot i =>
    obtain ⟨q, hq, hp⟩ := of_append i _ h
    exact ⟨q, hq, hp.imp_right fun h => .inr (.inr (.inr h))⟩

/-- No operation changes what a plan would be at the start. -/
theorem fresh_of_mem_apply {start : RunningPlan} (hs : ∀ q ∈ s, q.fresh = start)
    (h : p ∈ s.apply op) : p.fresh = start := by
  obtain ⟨q, hq, rfl | rfl | rfl | rfl | rfl⟩ := mem_apply h
  · exact hs _ hq
  · rw [RunningPlan.fresh_evaluate, hs q hq]
  · rw [RunningPlan.fresh_reset, hs q hq]
  · rw [RunningPlan.fresh_fresh, hs q hq]
  · rw [RunningPlan.fresh_reset, RunningPlan.fresh_fresh, hs q hq]

/-- After any run all plans would be the same at the start. -/
theorem fresh_of_mem_run {start : RunningPlan} (ops : List Operation)
    (hs : ∀ q ∈ s, q.fresh = start) : ∀ q ∈ s.run ops, q.fresh = start := by
  induction ops generalizing s with
  | nil => exact hs
  | cons op ops ih => exact ih fun q hq => fresh_of_mem_apply hs hq

/-- An operation on one plan leaves all others as they are. -/
theorem getElem?_apply_of_ne {i : Nat} (hi : i < s.length) (hne : i ≠ op.place) :
    (s.apply op)[i]? = s[i]? := by
  cases op with
  | evaluate place | reset place =>
    have hother : ¬ place = i := fun h => hne h.symm
    simp [apply, hother]
  | clone place | snapshot place =>
    rw [apply, List.getElem?_append_left hi]

/-- Copying a plan adds one that remembers nothing, and leaves the plan itself as it is. -/
theorem exists_copy {i : Nat} (hp : s[i]? = some p) (hop : op = .clone i ∨ op = .snapshot i) :
    ∃ copy : RunningPlan, s.apply op = s ++ [copy] ∧ copy.Forgetful := by
  rcases hop with rfl | rfl
  · refine ⟨p.fresh, ?_, p.forgetful_fresh⟩
    rw [apply, hp, Option.map_some, Option.toList_some]
  · refine ⟨p.fresh.reset, ?_, p.fresh.forgetful_reset⟩
    rw [apply, hp, Option.map_some, Option.toList_some]

/-- Whatever was done to a plan and to its copies:

    * each of them answers as the plan does when it is evaluated for the first time;
    * each of them is a copy of the same plan;
    * an operation on one of them leaves what all others remember;
    * a copy starts without remembered answers. -/
theorem answers_alike (plan : Plan Lookup) (source : Source) (ops : List Operation) :
    let first := (plan.start source).evaluate
    let s := Session.run [plan.start source] ops
    (∀ p ∈ s, p.evaluate.matched = first.matched ∧ p.evaluate.document = first.document) ∧
      (∀ p ∈ s, p.plan = plan) ∧
      (∀ op : Operation, ∀ i < s.length, i ≠ op.place →
        (s.apply op)[i]?.map RunningPlan.remembered = s[i]?.map RunningPlan.remembered) ∧
      ∀ i p, s[i]? = some p → ∀ op, op = .clone i ∨ op = .snapshot i →
        ∃ copy : RunningPlan, s.apply op = s ++ [copy] ∧ copy.Forgetful := by
  intro first s
  -- all plans of a session are the first one once they forget what they remember
  have hfresh : ∀ p ∈ s, p.fresh = plan.start source := by
    refine fresh_of_mem_run ops fun q hq => ?_
    rw [List.mem_singleton.1 hq, RunningPlan.fresh_start]
  refine ⟨?_, ?_, ?_, ?_⟩
  · intro p hp
    have hmatched := p.matched_fresh
    have hdocument := p.document_fresh
    rw [hfresh p hp] at hmatched hdocument
    exact ⟨hmatched.symm, hdocument.symm⟩
  · intro p hp
    have hplan := p.plan_fresh
    rw [hfresh p hp, RunningPlan.plan_start] at hplan
    exact hplan.symm
  · intro op i hi hne
    rw [getElem?_apply_of_ne hi hne]
  · intro i p hp op hop
    exact exists_copy hp hop

end Session

end IndexQuery
