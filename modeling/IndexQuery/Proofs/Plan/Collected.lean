import IndexQuery.Proofs.Plan.Coverage

/-! # What describes a match

    The document of a match is written while the plan is evaluated. A leaf that matches
    writes its values at once, before it is known whether what stands around it matches.

    * `RunningPlan.document_evaluateInto`: the document holds what the leaves collect that
      match when evaluation comes to them.
    * `Plan.LeakFree`: no intersection fails after a leaf of it has collected.
    * `RunningPlan.leakFree_iff`: just then all that does not match leaves the document as
      it was.
    * `RunningPlan.document_of_match`: then only leaves of matching branches describe the
      match.
    * `not_forall_describes`: an intersection that fails within a union leaves its values.
-/

namespace IndexQuery

/-! ## Documents -/

namespace Document

variable {d : Document} {field field' value : String} {values : List String}

theorem mem_values_insertAll :
    value ∈ (d.insertAll field values).values field' ↔
      (field' = field ∧ value ∈ values) ∨ value ∈ d.values field' := by
  induction values generalizing d with
  | nil => simp [insertAll]
  | cons v values ih =>
    have hcons : d.insertAll field (v :: values) = (d.insert field v).insertAll field values := rfl
    rw [hcons, ih, mem_values_insert, List.mem_cons]
    grind

/-- Whether each field of a document has a value. -/
def Filled (d : Document) : Prop :=
  ∀ field, d.contains field = true → ∃ value, value ∈ d.values field

theorem filled_empty : Filled ∅ := by
  intro field h
  cases h

theorem contains_of_mem_values (h : value ∈ d.values field) : d.contains field = true := by
  rw [contains, SortedMap.contains]
  cases hget : d.fields.get? field with
  | none =>
    rw [values, hget] at h
    cases h
  | some values => rfl

theorem Filled.insert (h : d.Filled) : (d.insert field value).Filled := by
  intro field' hfield'
  by_cases hsame : field' = field
  · exact ⟨value, mem_values_insert.2 (.inl ⟨hsame, rfl⟩)⟩
  · -- the other fields are as before
    have hold : d.contains field' = true := by
      simpa [Document.insert, contains, SortedMap.contains, SortedMap.get?_put, hsame] using hfield'
    obtain ⟨v, hv⟩ := h field' hold
    exact ⟨v, mem_values_insert.2 (.inr hv)⟩

theorem Filled.insertAll (h : d.Filled) : (d.insertAll field values).Filled := by
  induction values generalizing d with
  | nil => exact h
  | cons v values ih => exact ih h.insert

end Document

/-! ## Leaves -/

/-- The values that a scan of a range reads and that pass the test. -/
def Lookup.valuesIn (l : Lookup) (source : Source) (read : Lookup → Key → Option String)
    (range : KeyRange) : List String :=
  ((Cursor.scan { source } range).filterMap (read l)).filter l.test.accepts

/-- The values that a look-up collects when it matches. -/
def Lookup.collected (l : Lookup) (source : Source) : List String :=
  if !l.aggregate then []
  else if l.termFrequency then l.valuesIn source Lookup.termValue? l.record.termRange
  else l.valuesIn source Lookup.fieldValue? l.scanRange

namespace Leaf

variable (leaf : Leaf)

/-- The values that a leaf collects when it matches. -/
def collected : List String := leaf.lookup.collected leaf.cursor.source

theorem fst_check (value : String) : (leaf.check value).1 = leaf.lookup.test.accepts value := by
  unfold check
  split
  · exact leaf.memo.ask_fst value
  · rfl

/-- A check may fill the memo, and does nothing else to the leaf. -/
theorem snd_check (value : String) :
    (leaf.check value).2.lookup = leaf.lookup ∧ (leaf.check value).2.cursor = leaf.cursor := by
  unfold check
  split <;> exact ⟨rfl, rfl⟩

/-- A scan keeps a value that passes, and goes on with what the check leaves unless the first
    value is enough. -/
theorem collect_cons_of_read {read : Lookup → Key → Option String} {key : Key} {value : String}
    (first : Bool) (rest : List Key) (hread : read leaf.lookup key = some value) :
    collect read first leaf (key :: rest) =
      let next := (leaf.check value).2
      if leaf.lookup.test.accepts value = true then
        if first = true then ([value], { next with cursor.key? := some key })
        else (value :: (collect read first next rest).1, (collect read first next rest).2)
      else collect read first next rest := by
  rw [collect]
  simp only [hread, ← leaf.fst_check value]
  rcases leaf.check value with ⟨_ | _, next⟩ <;> rfl

/-- A scan of all keys reads every value that passes the test, whatever is remembered. -/
theorem collect_all (read : Lookup → Key → Option String) (keys : List Key) :
    (collect read false leaf keys).1 =
        (keys.filterMap (read leaf.lookup)).filter leaf.lookup.test.accepts ∧
      (collect read false leaf keys).2.lookup = leaf.lookup ∧
      (collect read false leaf keys).2.cursor.source = leaf.cursor.source := by
  induction keys generalizing leaf with
  | nil => exact ⟨rfl, rfl, rfl⟩
  | cons key rest ih =>
    cases hread : read leaf.lookup key with
    | none =>
      rw [collect, List.filterMap_cons_none hread]
      simp only [hread]
      exact ih leaf
    | some value =>
      obtain ⟨hlookup, hcursor⟩ := leaf.snd_check value
      obtain ⟨hvalues, hlookup', hsource'⟩ := ih (leaf.check value).2
      rw [hlookup] at hvalues hlookup'
      rw [hcursor] at hsource'
      rw [leaf.collect_cons_of_read false rest hread, List.filterMap_cons_some hread,
        List.filter_cons, ← hvalues]
      by_cases haccepts : leaf.lookup.test.accepts value = true
      · rw [if_pos haccepts, if_pos haccepts]
        exact ⟨rfl, hlookup', hsource'⟩
      · rw [if_neg haccepts, if_neg haccepts]
        exact ⟨rfl, hlookup', hsource'⟩

theorem gather_all (read : Lookup → Key → Option String) (range : KeyRange) :
    (leaf.gather read false range).1 = leaf.lookup.valuesIn leaf.cursor.source read range ∧
      (leaf.gather read false range).2.lookup = leaf.lookup ∧
      (leaf.gather read false range).2.cursor.source = leaf.cursor.source :=
  collect_all { leaf with cursor := leaf.cursor.seek range } read _

/-- A leaf that matches adds what it collects, and another one adds nothing. -/
theorem document_evaluate (d : Document) :
    (leaf.evaluate d).document =
      if leaf.matched then d.insertAll leaf.lookup.field leaf.collected else d := by
  have hmatched := leaf.matched_evaluate_eq ∅
  rw [← matched] at hmatched
  unfold evaluate
  dsimp only
  cases haggregate : leaf.lookup.aggregate with
  | false =>
    -- one value is enough for a match, and it is not kept
    have hnothing : leaf.collected = [] := by simp [collected, Lookup.collected, haggregate]
    rw [hnothing]
    rcases leaf.gather Lookup.fieldValue? (!false) leaf.lookup.scanRange with ⟨_ | ⟨v, vs⟩, next⟩
    · cases leaf.matched <;> rfl
    · cases leaf.matched <;> rfl
  | true =>
    rw [haggregate, Bool.not_true] at hmatched
    obtain ⟨hvalues, hlookup, hsource⟩ :=
      leaf.gather_all Lookup.fieldValue? leaf.lookup.scanRange
    rw [Bool.not_true]
    cases hgather : leaf.gather Lookup.fieldValue? false leaf.lookup.scanRange with
    | mk found next =>
      rw [hgather] at hmatched hvalues hlookup hsource
      cases found with
      | nil =>
        rw [hmatched]
        rfl
      | cons v vs =>
        rw [hmatched]
        simp only [List.isEmpty_cons, Bool.not_false, Bool.false_eq_true, if_false, if_true]
        cases hterm : leaf.lookup.termFrequency with
        | false =>
          simp [collected, Lookup.collected, haggregate, hterm, ← hvalues]
        | true =>
          -- the same source is scanned once more, for the term entries
          obtain ⟨hterms, -, -⟩ := next.gather_all Lookup.termValue? leaf.lookup.record.termRange
          dsimp only at hlookup hsource
          rw [hlookup, hsource] at hterms
          simp [collected, Lookup.collected, haggregate, hterm, ← hterms]

end Leaf

/-! ## Leaves of a plan -/

namespace Plan

variable {α : Type} {answer : α → Bool} {a : α} {cs : List (Plan α)}

mutual

/-- The leaves that match when evaluation comes to them, in the order of evaluation. An
    intersection is left at the first child that does not match. What stands beneath a
    negation does not count. -/
def encountered (answer : α → Bool) : Plan α → List α
  | .intersection cs => encounteredEvery answer cs
  | .union cs => encounteredSome answer cs
  | .leaf a => if answer a then [a] else []
  | .negation _ | .dropped _ => []

/-- The leaves of plans that are evaluated up to the first that does not match. -/
def encounteredEvery (answer : α → Bool) : List (Plan α) → List α
  | [] => []
  | c :: cs =>
    c.encountered answer ++ if c.holds answer then encounteredEvery answer cs else []

/-- The leaves of plans that are all evaluated. -/
def encounteredSome (answer : α → Bool) : List (Plan α) → List α
  | [] => []
  | c :: cs => c.encountered answer ++ encounteredSome answer cs

end

theorem mem_encountered_union :
    a ∈ (Plan.union cs).encountered answer ↔ ∃ c ∈ cs, a ∈ c.encountered answer := by
  rw [encountered]
  induction cs with
  | nil => simp [encounteredSome]
  | cons c cs ih => simp [encounteredSome, ih]

/-- An intersection that matches comes to all of its children. -/
theorem mem_encountered_intersection (h : (Plan.intersection cs).holds answer = true) :
    a ∈ (Plan.intersection cs).encountered answer ↔ ∃ c ∈ cs, a ∈ c.encountered answer := by
  rw [encountered]
  rw [holds_intersection, List.all_eq_true] at h
  induction cs with
  | nil => simp [encounteredEvery]
  | cons c cs ih =>
    have hc := h c List.mem_cons_self
    have hcs := ih fun c' hc' => h c' (List.mem_cons_of_mem _ hc')
    simp [encounteredEvery, hc, hcs]

/-- What stands in a plan beneath no negation. -/
inductive Within (p : Plan α) : Plan α → Prop where
  | self : Within p p
  | intersection {cs : List (Plan α)} {c : Plan α} :
      c ∈ cs → Within p c → Within p (.intersection cs)
  | union {cs : List (Plan α)} {c : Plan α} : c ∈ cs → Within p c → Within p (.union cs)

theorem Within.trans {p q r : Plan α} (hpq : Within p q) (hqr : Within q r) : Within p r := by
  induction hqr with
  | self => exact hpq
  | intersection hc _ ih => exact .intersection hc ih
  | union hc _ ih => exact .union hc ih

/-- A leaf describes the match of a plan: it matches, all intersections and unions around it
    match, and there is no negation around it. -/
inductive Describes (answer : α → Bool) (a : α) : Plan α → Prop where
  | leaf : answer a = true → Describes answer a (.leaf a)
  | intersection {cs : List (Plan α)} {c : Plan α} :
      (Plan.intersection cs).holds answer = true → c ∈ cs → Describes answer a c →
      Describes answer a (.intersection cs)
  | union {cs : List (Plan α)} {c : Plan α} :
      (Plan.union cs).holds answer = true → c ∈ cs → Describes answer a c →
      Describes answer a (.union cs)

/-- Evaluation comes to a leaf that describes the match. -/
theorem Describes.mem_encountered {p : Plan α} (h : Describes answer a p) :
    a ∈ p.encountered answer := by
  induction h with
  | leaf ha => simp [encountered, ha]
  | intersection hholds hc _ ih => exact (mem_encountered_intersection hholds).2 ⟨_, hc, ih⟩
  | union _ hc _ ih => exact mem_encountered_union.2 ⟨_, hc, ih⟩

/-- No intersection, but beneath negations, fails after a leaf of it has gathered
    something. -/
def LeakFree (answer : α → Bool) (gathers : α → Prop) (p : Plan α) : Prop :=
  ∀ cs, Within (.intersection cs) p → (Plan.intersection cs).holds answer = false →
    ∀ a ∈ (Plan.intersection cs).encountered answer, ¬ gathers a

section LeakFree

variable {gathers : α → Prop} {p q : Plan α}

theorem leakFree_leaf (a : α) : (Plan.leaf a).LeakFree answer gathers := by
  intro cs hcs
  cases hcs

theorem LeakFree.union (h : ∀ c ∈ cs, c.LeakFree answer gathers) :
    (Plan.union cs).LeakFree answer gathers := by
  intro cs' hcs'
  cases hcs' with
  | union hc hcs' => exact h _ hc cs' hcs'

theorem LeakFree.intersection (h : ∀ c ∈ cs, c.LeakFree answer gathers)
    (hnone : (Plan.intersection cs).holds answer = false →
      ∀ a ∈ (Plan.intersection cs).encountered answer, ¬ gathers a) :
    (Plan.intersection cs).LeakFree answer gathers := by
  intro cs' hcs'
  cases hcs' with
  | self => exact hnone
  | intersection hc hcs' => exact h _ hc cs' hcs'

theorem LeakFree.of_within (h : q.LeakFree answer gathers) (hp : Within p q) :
    p.LeakFree answer gathers :=
  fun cs hcs => h cs (hcs.trans hp)

/-- What does not match comes to no leaf that gathers. -/
theorem LeakFree.not_gathers (h : p.LeakFree answer gathers) (hp : p.holds answer = false)
    (ha : a ∈ p.encountered answer) : ¬ gathers a := by
  induction p using Plan.induction with
  | intersection cs _ => exact h cs .self hp a ha
  | union cs ih =>
    -- no child matches, and none has come to a leaf that gathers
    rw [holds_union, List.any_eq_false] at hp
    obtain ⟨c, hc, hac⟩ := mem_encountered_union.1 ha
    exact ih c hc (h.of_within (.union hc .self)) (Bool.eq_false_iff.2 (hp c hc)) hac
  | leaf b =>
    rw [holds_leaf] at hp
    simp [encountered, hp] at ha
  | negation p _ | dropped reason => simp [encountered] at ha

/-- Where a plan matches, the leaves that it comes to and that gather describe the match. -/
theorem LeakFree.describes (h : p.LeakFree answer gathers) (hp : p.holds answer = true)
    (ha : a ∈ p.encountered answer) (hgathers : gathers a) : Describes answer a p := by
  induction p using Plan.induction with
  | intersection cs ih =>
    have hall : ∀ c ∈ cs, c.holds answer = true := by
      simpa only [holds_intersection, List.all_eq_true] using hp
    obtain ⟨c, hc, hac⟩ := (mem_encountered_intersection hp).1 ha
    exact .intersection hp hc (ih c hc (h.of_within (.intersection hc .self)) (hall c hc) hac)
  | union cs ih =>
    obtain ⟨c, hc, hac⟩ := mem_encountered_union.1 ha
    have hfree := h.of_within (.union hc .self)
    -- a child that does not match has come to no leaf that gathers
    cases hholds : c.holds answer with
    | false => exact absurd hgathers (hfree.not_gathers hholds hac)
    | true => exact .union hp hc (ih c hc hfree hholds hac)
  | leaf b =>
    rw [holds_leaf] at hp
    simp only [encountered, hp, if_true, List.mem_singleton] at ha
    subst ha
    exact .leaf hp
  | negation p _ | dropped reason => simp [encountered] at ha

end LeakFree

end Plan

/-! ## The document of a plan -/

/-- The document with what several leaves collect. -/
def Document.collect (d : Document) (leaves : List Leaf) : Document :=
  leaves.foldl (fun d leaf => d.insertAll leaf.lookup.field leaf.collected) d

section

variable {d : Document} {field value : String} {leaves : List Leaf}

theorem Document.collect_cons (leaf : Leaf) :
    d.collect (leaf :: leaves) =
      (d.insertAll leaf.lookup.field leaf.collected).collect leaves := rfl

theorem Document.collect_append {leaves' : List Leaf} :
    d.collect (leaves ++ leaves') = (d.collect leaves).collect leaves' :=
  List.foldl_append

theorem Document.mem_values_collect :
    value ∈ (d.collect leaves).values field ↔
      (∃ leaf ∈ leaves, leaf.lookup.field = field ∧ value ∈ leaf.collected) ∨
        value ∈ d.values field := by
  induction leaves generalizing d with
  | nil => simp [collect]
  | cons leaf leaves ih =>
    rw [collect_cons, ih, mem_values_insertAll]
    grind

theorem Document.Filled.collect (h : d.Filled) : (d.collect leaves).Filled := by
  induction leaves generalizing d with
  | nil => exact h
  | cons leaf leaves ih => exact ih h.insertAll

/-- Leaves that collect nothing leave the document as it was. -/
theorem Document.collect_eq_self (h : ∀ leaf ∈ leaves, leaf.collected = []) :
    d.collect leaves = d := by
  induction leaves with
  | nil => rfl
  | cons leaf leaves ih =>
    rw [collect_cons, h leaf List.mem_cons_self]
    exact ih fun leaf' hleaf' => h leaf' (List.mem_cons_of_mem _ hleaf')

end

namespace RunningPlan

mutual

/-- Evaluating a plan adds to the document what the leaves collect that match when
    evaluation comes to them. -/
theorem document_evaluateInto :
    ∀ (p : RunningPlan) (d : Document),
      (evaluateInto p d).document = d.collect (p.encountered Leaf.matched)
  | .leaf l, d => by
    rw [evaluateInto, Plan.encountered, l.document_evaluate d]
    cases l.matched <;> rfl
  | .intersection cs, d => by rw [evaluateInto, Plan.encountered, document_evaluateEvery cs d]
  | .union cs, d => by rw [evaluateInto, Plan.encountered, document_evaluateSome cs d]
  | .negation p, d => by rw [evaluateInto, Plan.encountered]; rfl
  | .dropped reason, d => by rw [evaluateInto, Plan.encountered]; rfl

theorem document_evaluateEvery :
    ∀ (ps : List RunningPlan) (d : Document),
      (evaluateEvery ps d).document = d.collect (Plan.encounteredEvery Leaf.matched ps)
  | [], d => by rw [evaluateEvery, Plan.encounteredEvery]; rfl
  | p :: ps, d => by
    have hp := document_evaluateInto p d
    have hps := document_evaluateEvery ps (evaluateInto p d).document
    simp only [evaluateEvery, Plan.encounteredEvery, matched_evaluateInto]
    -- the rest is only come to behind a child that matches
    cases p.holds Leaf.matched with
    | true => simp only [if_true, Document.collect_append, ← hp, hps]
    | false => simpa using hp

theorem document_evaluateSome :
    ∀ (ps : List RunningPlan) (d : Document),
      (evaluateSome ps d).document = d.collect (Plan.encounteredSome Leaf.matched ps)
  | [], d => by rw [evaluateSome, Plan.encounteredSome]; rfl
  | p :: ps, d => by
    have hp := document_evaluateInto p d
    have hps := document_evaluateSome ps (evaluateInto p d).document
    simp only [evaluateSome, Plan.encounteredSome, Document.collect_append, ← hp, hps]

end

theorem document_evaluate (p : RunningPlan) :
    p.evaluate.document =
      if p.evaluate.matched then Document.collect ∅ (p.encountered Leaf.matched) else ∅ := by
  rw [← document_evaluateInto]
  rfl

/-- A plan is leak free just when all that does not match leaves the document as it was. -/
theorem leakFree_iff (p : RunningPlan) :
    p.LeakFree Leaf.matched (fun leaf => leaf.collected ≠ []) ↔
      ∀ q, q.Within p → ∀ d, (evaluateInto q d).matched = false →
        (evaluateInto q d).document = d := by
  constructor
  · intro hfree q hq d hmatched
    rw [matched_evaluateInto] at hmatched
    rw [document_evaluateInto]
    refine Document.collect_eq_self fun leaf hleaf => ?_
    exact Decidable.not_not.1 ((hfree.of_within hq).not_gathers hmatched hleaf)
  · -- what a failing intersection has collected shows if the document was empty
    intro hkept cs hcs hholds leaf hleaf hcollected
    have hempty := hkept _ hcs ∅ ((matched_evaluateInto _ _).trans hholds)
    obtain ⟨value, hvalue⟩ := List.exists_mem_of_ne_nil _ hcollected
    have hmem : value ∈ (evaluateInto (.intersection cs) ∅).document.values leaf.lookup.field := by
      rw [document_evaluateInto, Document.mem_values_collect]
      exact .inl ⟨leaf, hleaf, rfl, hvalue⟩
    rw [hempty] at hmem
    cases hmem

/-- Where no intersection fails after a leaf of it has collected:

    * the document of a match holds the values that the leaves collect which match, stand
      beneath no negation and have only intersections and unions around them that match;
    * what does not match leaves the document as it was. -/
theorem document_of_match (p : RunningPlan)
    (hfree : p.LeakFree Leaf.matched fun leaf => leaf.collected ≠ []) :
    (p.evaluate.matched = true → ∀ field,
        (∀ value, value ∈ p.evaluate.document.values field ↔
          ∃ leaf, p.Describes Leaf.matched leaf ∧ leaf.lookup.field = field ∧
            value ∈ leaf.collected) ∧
        (p.evaluate.document.contains field = true ↔
          ∃ leaf, p.Describes Leaf.matched leaf ∧ leaf.lookup.field = field ∧
            leaf.collected ≠ [])) ∧
      ∀ q, q.Within p → ∀ d, (evaluateInto q d).matched = false →
        (evaluateInto q d).document = d := by
  refine ⟨?_, (leakFree_iff p).1 hfree⟩
  intro hmatched field
  have hholds : p.holds Leaf.matched = true := by
    rw [← matched_evaluateInto p ∅]
    exact hmatched
  have hvalues : ∀ value, value ∈ p.evaluate.document.values field ↔
      ∃ leaf, p.Describes Leaf.matched leaf ∧ leaf.lookup.field = field ∧
        value ∈ leaf.collected := by
    intro value
    rw [document_evaluate, if_pos hmatched, Document.mem_values_collect]
    -- a leaf that collects a value gathers, so that it describes the match
    constructor
    · rintro (⟨leaf, hleaf, hfield, hvalue⟩ | hempty)
      · exact ⟨leaf, hfree.describes hholds hleaf (List.ne_nil_of_mem hvalue), hfield, hvalue⟩
      · cases hempty
    · rintro ⟨leaf, hleaf, hfield, hvalue⟩
      exact .inl ⟨leaf, hleaf.mem_encountered, hfield, hvalue⟩
  have hfilled : p.evaluate.document.Filled := by
    rw [document_evaluate, if_pos hmatched]
    exact Document.filled_empty.collect
  refine ⟨hvalues, ?_, ?_⟩
  · intro hcontains
    obtain ⟨value, hvalue⟩ := hfilled field hcontains
    obtain ⟨leaf, hleaf, hfield, hcollected⟩ := (hvalues value).1 hvalue
    exact ⟨leaf, hleaf, hfield, List.ne_nil_of_mem hcollected⟩
  · rintro ⟨leaf, hleaf, hfield, hcollected⟩
    obtain ⟨value, hvalue⟩ := List.exists_mem_of_ne_nil _ hcollected
    exact Document.contains_of_mem_values ((hvalues value).2 ⟨leaf, hleaf, hfield, hvalue⟩)

end RunningPlan

/-! ### An intersection within a union -/

/-- The intersection of two look-ups in union with `B == 'b'`, where all values are
    collected. -/
def branchPlan (first second : String × String) : RunningPlan :=
  let options := { eventOptions with aggregationFields := .ofList ["A", "B"] }
  let compiler : Compiler := ⟨eventRecord, options⟩
  let plan : Plan Lookup := .union
    [.intersection
      [compiler.lookup first.1 (.point first.2), compiler.lookup second.1 (.point second.2)],
      compiler.lookup "B" (.point "b")]
  plan.start eventSource

/-- In `(B == 'x' && A == 'a') || B == 'b'` the intersection fails before it has collected. -/
theorem document_of_match_branchPlan :
    let p := branchPlan ("B", "x") ("A", "a")
    p.LeakFree Leaf.matched (fun leaf => leaf.collected ≠ []) ∧ p.evaluate.matched = true ∧
      ∀ field value, value ∈ p.evaluate.document.values field ↔
        ∃ leaf, p.Describes Leaf.matched leaf ∧ leaf.lookup.field = field ∧
          value ∈ leaf.collected := by
  intro p
  have hfree : p.LeakFree Leaf.matched (fun leaf => leaf.collected ≠ []) := by
    refine .union (List.forall_mem_cons.2
      ⟨?_, List.forall_mem_singleton.2 (Plan.leakFree_leaf _)⟩)
    refine .intersection (List.forall_mem_cons.2
      ⟨Plan.leakFree_leaf _, List.forall_mem_singleton.2 (Plan.leakFree_leaf _)⟩) ?_
    rintro - leaf ⟨⟩
  have hmatched : p.evaluate.matched = true := rfl
  exact ⟨hfree, hmatched, fun field => ((p.document_of_match hfree).1 hmatched field).1⟩

/-- In `(A == 'a' && B == 'x') || B == 'b'` the intersection fails after it has collected,
    and its value stays in the document. -/
theorem not_forall_describes :
    ¬ ∀ p : RunningPlan, p.evaluate.matched = true →
      ∀ field value, value ∈ p.evaluate.document.values field →
        ∃ leaf, p.Describes Leaf.matched leaf ∧ leaf.lookup.field = field ∧
          value ∈ leaf.collected := by
  intro hall
  have hmatched : (branchPlan ("A", "a") ("B", "x")).evaluate.matched = true := rfl
  have hvalue : "a" ∈ (branchPlan ("A", "a") ("B", "x")).evaluate.document.values "A" := by
    decide
  obtain ⟨leaf, hleaf, hfield, -⟩ := hall _ hmatched "A" "a" hvalue
  rcases hleaf with _ | _ | ⟨-, hc, hleaf⟩
  rcases List.mem_cons.1 hc with rfl | hc
  · rcases hleaf with _ | ⟨hholds, -, -⟩
    cases hholds
  · cases List.mem_singleton.1 hc
    rcases hleaf with ⟨-⟩
    exact absurd hfield (by decide : "B" ≠ "A")

end IndexQuery
