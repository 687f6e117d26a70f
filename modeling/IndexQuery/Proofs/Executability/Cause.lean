import IndexQuery.Proofs.Executability.Contributors
import IndexQuery.Proofs.Executability.PushDown

/-! # The cause of a state

    A classification keeps texts that say why a query is in its state. Every junction chooses
    among the texts of its children by their states, and every negation moves them to other
    states.

    A junction of which one child is enough passes over the texts of the children that it is
    partly answered for. Nothing is told of it then, nor of a query that leaves nothing else
    to the record.

    * `Classifier.silent`: the queries of which nothing is told.
    * `Contributors.Tell`: under which states the texts of a query stand, and when there are
      none.
    * `Contributors.Tell.junction`, `Classifier.tell_negate`: what nodes make of the texts.
    * `contributors_of_classify`: all queries but those have a text to tell.
-/

namespace IndexQuery

/-! ## Under which states texts stand -/

namespace ExecState

/-- Whether a query in the state leaves something to the record. -/
def leavesSome : ExecState → Bool
  | .nonExecutable | .partially => true
  | .executable | .negatedExecutable | .ignorable | .error => false

/-- The state under which the cause of a state stands. What is partly answered is so for the
    part that is not. -/
def voice : ExecState → ExecState
  | .partially => .nonExecutable
  | s => s

/-- The states under which the texts of a query in the given state stand. -/
def voices : ExecState → List ExecState
  | .executable | .negatedExecutable => [.executable, .negatedExecutable]
  | .nonExecutable | .partially => [.nonExecutable]
  | .ignorable => []
  | .error => [.error]

theorem of_leavesSome {s : ExecState} (h : s.leavesSome = true) :
    s = .nonExecutable ∨ s = .partially := by
  revert s
  decide

theorem voice_of_leavesSome {s : ExecState} (h : s.leavesSome = true) : s.voice = .nonExecutable := by
  revert s
  decide

end ExecState

namespace ExecMode

/-- Where the negation of a query in the given state moves the texts under a state. -/
def moved : ExecMode → ExecState → ExecState → ExecState
  | .fieldIndex, .executable, s | .fieldIndex, .negatedExecutable, s => s.swap
  | .globalIndex, .error, s | .globalIndex, .ignorable, s => s
  | .fieldIndex, _, s => s
  | .globalIndex, _, s => if s = .error then .error else .nonExecutable

variable {mode : ExecMode} {state s : ExecState}

theorem moved_mem_voices (h : s ∈ state.voices) : mode.moved state s ∈ (mode.negate state).voices := by
  revert state s
  cases mode <;> decide

/-- The cause of the state is moved to where the cause of the negation stands. -/
theorem moved_voice (h : state ≠ .ignorable) :
    mode.moved state state.voice = (mode.negate state).voice := by
  revert state
  cases mode <;> decide

theorem leavesSome_negate (h : state.leavesSome = true) : (mode.negate state).leavesSome = true := by
  revert state
  cases mode <;> decide

end ExecMode

namespace Combine

variable {combine : Combine} {state child s : ExecState}

/-- A junction takes over what may stand among its own texts. -/
theorem mem_voices_of_mem_reported (h : s ∈ combine.reported state) (hchild : s ∈ child.voices) :
    s ∈ state.voices := by
  revert state child s
  cases combine <;> decide

/-- A junction that leaves something takes over the texts of children that leave something. -/
theorem leavesSome_of_mem_reported (hstate : state.leavesSome = true)
    (h : s ∈ combine.reported state) (hchild : s ∈ child.voices) : child.leavesSome = true := by
  revert state child s
  cases combine <;> decide

/-- A junction of which one child is enough takes over nothing where it is partly answered. -/
theorem not_mem_voices_of_mem_reported (h : s ∈ allOrSome.reported .partially) :
    s ∉ child.voices := by
  revert child s
  decide

/-- All other junctions take over the cause. -/
theorem voice_mem_reported (hignorable : state ≠ .ignorable)
    (h : ¬ (combine = .allOrSome ∧ state = .partially)) : state.voice ∈ combine.reported state := by
  revert state
  cases combine <;> decide

theorem join_cases (combine : Combine) (a b : ExecState) :
    combine.join a b = a ∨ combine.join a b = b ∨ combine.join a b = .partially := by
  revert a b
  cases combine <;> decide

/-- The state of a junction that leaves nothing is that of one of its children. -/
theorem apply_mem {states : List ExecState} (hignorable : combine.apply states ≠ .ignorable)
    (hleaves : (combine.apply states).leavesSome = false) : combine.apply states ∈ states := by
  induction states with
  | nil => exact absurd rfl hignorable
  | cons s states ih =>
    rw [apply_cons] at hignorable hleaves ⊢
    rcases join_cases combine s (combine.apply states) with h | h | h
    · rw [h]
      exact List.mem_cons_self
    · rw [h] at hignorable hleaves ⊢
      exact List.mem_cons_of_mem s (ih hignorable hleaves)
    · rw [h] at hleaves
      cases hleaves

end Combine

/-! ## Queries of which nothing is told -/

namespace Classifier

mutual

/-- Whether a query leaves something to the record, and no text says what. That is so for a
    junction that is partly answered though one of its children is enough. It is so for any
    other that leaves something if it is so for all of its children that do. -/
def silent (c : Classifier) (negated : Bool) : Query → Bool
  | .junction kind cs =>
    let combine := Combine.ofJunction kind negated
    let state := combine.apply (cs.map (c.stateWith negated false))
    state.leavesSome &&
      (decide (combine = .allOrSome ∧ state = .partially) || c.silentAll negated cs)
  | .not q => c.silent (!negated) q
  | .group q => c.silent negated q
  | .marked m note q => (c.unitState? m (.marked m note q) q).isNone && c.silent negated q
  | .compare _ | .call _ => false

/-- Whether it is so for all those queries that leave something to the record. -/
def silentAll (c : Classifier) (negated : Bool) : List Query → Bool
  | [] => true
  | q :: rest =>
    (!(c.stateWith negated false q).leavesSome || c.silent negated q) && c.silentAll negated rest

end

theorem silentAll_eq_all (c : Classifier) (negated : Bool) (cs : List Query) :
    c.silentAll negated cs =
      cs.all fun q => !(c.stateWith negated false q).leavesSome || c.silent negated q := by
  induction cs with
  | nil => rfl
  | cons q cs ih => rw [silentAll, ih, List.all_cons]

end Classifier

/-! ## What contributors tell -/

namespace Contributors

/-- What contributors tell of a query in the given state. -/
structure Tell (c : Contributors) (state : ExecState) (silent : Bool) : Prop where
  /-- Texts stand under the states that go with the state of the query. -/
  within : ∀ s, ∀ t ∈ c.termsOf s, s ∈ state.voices
  /-- The cause stands under its own state. -/
  told : state ≠ .ignorable → silent = false → ∃ t, t ∈ c.termsOf state.voice
  /-- Only what is left to the record has no text. -/
  untold : silent = true → state.leavesSome = true ∧ ∀ s t, t ∉ c.termsOf s

/-- A query that asks for nothing has no texts, and none is silent that leaves nothing. -/
theorem Tell.isEmpty_iff {c : Contributors} {state : ExecState} {silent : Bool}
    (h : c.Tell state silent) : c.isEmpty = true ↔ state = .ignorable ∨ silent = true := by
  rw [Contributors.isEmpty_iff]
  constructor
  · intro hempty
    by_cases hignorable : state = .ignorable
    · exact .inl hignorable
    · right
      rw [← Bool.not_eq_false]
      intro hsilent
      obtain ⟨t, ht⟩ := h.told hignorable hsilent
      exact hempty _ t ht
  · rintro (rfl | hsilent)
    · intro s t ht
      exact absurd (h.within s t ht) List.not_mem_nil
    · exact (h.untold hsilent).2

/-- A unit tells its cause, unless it asks for nothing. -/
theorem tell_unit {state : ExecState} (h : state ≠ .partially) (cause : Query) :
    Tell (if state = .ignorable then none else single state cause.render) state false := by
  have hvoice : state.voice = state ∧ (state ≠ .ignorable → state ∈ state.voices) := by
    revert state
    decide
  refine ⟨?_, ?_, nofun⟩
  · intro s t ht
    split at ht
    · exact absurd ht not_mem_none
    · rename_i hignorable
      rw [(mem_single.1 ht).1]
      exact hvoice.2 hignorable
  · intro hignorable _
    rw [if_neg hignorable, hvoice.1]
    exact ⟨cause.render, mem_single.2 ⟨rfl, rfl⟩⟩

section Junction

variable {α : Type} {combine : Combine} {items : List α} {state : α → ExecState}
  {contributors : α → Contributors} {silent : α → Bool}

/-- A junction has the cause of one of its children of which something is told, unless it
    leaves something and none is told of by which it does so. -/
theorem Tell.exists_child (combine : Combine)
    (h : ∀ x ∈ items, (contributors x).Tell (state x) (silent x))
    (hignorable : combine.apply (items.map state) ≠ .ignorable)
    (hall : (combine.apply (items.map state)).leavesSome = true →
      (items.all fun x => !(state x).leavesSome || silent x) = false) :
    ∃ x ∈ items, silent x = false ∧ state x ≠ .ignorable ∧
      (state x).voice = (combine.apply (items.map state)).voice := by
  cases hleaves : (combine.apply (items.map state)).leavesSome with
  | true =>
    -- a child leaves something as well, and what is left has one voice
    obtain ⟨x, hx, hx'⟩ := List.all_eq_false.1 (hall hleaves)
    rw [Bool.not_eq_true, Bool.or_eq_false_iff, Bool.not_eq_false'] at hx'
    obtain ⟨hxleaves, hxsilent⟩ := hx'
    refine ⟨x, hx, hxsilent, ?_, ?_⟩
    · intro hstate
      rw [hstate] at hxleaves
      cases hxleaves
    · rw [ExecState.voice_of_leavesSome hxleaves, ExecState.voice_of_leavesSome hleaves]
  | false =>
    -- a child has the state of the junction, and leaves nothing either
    obtain ⟨x, hx, hstate⟩ := List.mem_map.1 (Combine.apply_mem hignorable hleaves)
    rw [← hstate] at hignorable hleaves ⊢
    refine ⟨x, hx, ?_, hignorable, rfl⟩
    rw [← Bool.not_eq_true]
    intro hsilent
    rw [((h x hx).untold hsilent).1] at hleaves
    cases hleaves

/-- A junction tells the cause that one of its children tells, where it takes that over. -/
theorem Tell.junction (h : ∀ x ∈ items, (contributors x).Tell (state x) (silent x)) :
    (items.foldl (fun sum x =>
        sum.absorb (contributors x) (combine.reported (combine.apply (items.map state)))) none).Tell
      (combine.apply (items.map state))
      ((combine.apply (items.map state)).leavesSome &&
        (decide (combine = .allOrSome ∧ combine.apply (items.map state) = .partially) ||
          items.all fun x => !(state x).leavesSome || silent x)) := by
  have hchild := Tell.exists_child combine h
  generalize combine.apply (items.map state) = combined at hchild ⊢
  refine ⟨?_, ?_, ?_⟩
  · intro s t ht
    rcases mem_foldl_absorb.1 ht with ht | ⟨hreported, x, hx, ht⟩
    · exact absurd ht not_mem_none
    · exact Combine.mem_voices_of_mem_reported hreported ((h x hx).within s t ht)
  · intro hignorable hsilent
    -- the junction is not one of those that pass over the cause
    have hreports : ¬ (combine = .allOrSome ∧ combined = .partially) := by
      rintro ⟨rfl, rfl⟩
      cases hsilent
    have hall : combined.leavesSome = true →
        (items.all fun x => !(state x).leavesSome || silent x) = false := by
      intro hleaves
      rw [hleaves, Bool.true_and, Bool.or_eq_false_iff] at hsilent
      exact hsilent.2
    obtain ⟨x, hx, hxsilent, hxignorable, hvoice⟩ := hchild hignorable hall
    obtain ⟨t, ht⟩ := (h x hx).told hxignorable hxsilent
    rw [hvoice] at ht
    exact ⟨t, mem_foldl_absorb.2
      (.inr ⟨Combine.voice_mem_reported hignorable hreports, x, hx, ht⟩)⟩
  · intro hsilent
    obtain ⟨hleaves, hcause⟩ := Bool.and_eq_true_iff.1 hsilent
    refine ⟨hleaves, ?_⟩
    intro s t ht
    rcases mem_foldl_absorb.1 ht with ht | ⟨hreported, x, hx, ht⟩
    · exact not_mem_none ht
    have hvoices := (h x hx).within s t ht
    rcases Bool.or_eq_true_iff.1 hcause with hpasses | hall
    · obtain ⟨rfl, rfl⟩ := of_decide_eq_true hpasses
      exact Combine.not_mem_voices_of_mem_reported hreported hvoices
    · -- what is taken over comes from a child that leaves something, and that is silent
      have hx' := List.all_eq_true.1 hall x hx
      rw [Combine.leavesSome_of_mem_reported hleaves hreported hvoices] at hx'
      exact ((h x hx).untold hx').2 s t ht

end Junction

end Contributors

namespace Classifier

variable {c : Classifier}

open Contributors (Tell)

/-! ## Nodes -/

/-- A negation moves texts, and neither brings new ones nor loses any. -/
theorem mem_negate {r : Classification} {s : ExecState} {t : String} :
    t ∈ (c.negate r).contributors.termsOf s ↔
      ∃ s', c.mode.moved r.state s' = s ∧ t ∈ r.contributors.termsOf s' := by
  obtain ⟨state, contributors, states, exceeded⟩ := r
  have hkept : t ∈ contributors.termsOf s ↔ ∃ s', s' = s ∧ t ∈ contributors.termsOf s' := by
    simp
  unfold negate
  cases c.mode with
  | fieldIndex =>
    cases state with
    | executable | negatedExecutable => exact Contributors.mem_relabel
    | nonExecutable | «partially» | ignorable | error => exact hkept
  | globalIndex =>
    cases state with
    | executable | negatedExecutable | nonExecutable | «partially» => exact Contributors.mem_relabel
    | ignorable | error => exact hkept

/-- A negation tells the cause that is told of what it negates. -/
theorem tell_negate {r : Classification} {silent : Bool} (h : r.contributors.Tell r.state silent) :
    (c.negate r).contributors.Tell (c.negate r).state silent := by
  rw [state_negate]
  refine ⟨?_, ?_, ?_⟩
  · intro s t ht
    obtain ⟨s', hmoved, ht'⟩ := mem_negate.1 ht
    rw [← hmoved]
    exact ExecMode.moved_mem_voices (h.within s' t ht')
  · intro hignorable hsilent
    rw [Ne, ExecMode.negate_eq_ignorable] at hignorable
    obtain ⟨t, ht⟩ := h.told hignorable hsilent
    exact ⟨t, mem_negate.2 ⟨_, ExecMode.moved_voice hignorable, ht⟩⟩
  · intro hsilent
    obtain ⟨hleaves, hnone⟩ := h.untold hsilent
    refine ⟨ExecMode.leavesSome_negate hleaves, ?_⟩
    intro s t ht
    obtain ⟨s', -, ht'⟩ := mem_negate.1 ht
    exact hnone s' t ht'

theorem tell_settle (odd : Bool) {r : Classification} {silent : Bool}
    (h : r.contributors.Tell r.state silent) :
    (c.settle odd r).contributors.Tell (c.settle odd r).state silent := by
  cases odd with
  | false => exact h
  | true => exact tell_negate h

theorem byRecord_ne_partially (fields : List String) : c.byRecord fields ≠ .partially := by
  rcases c.byRecord_cases fields with h | h <;> rw [h] <;> decide

/-- No leaf is partly answered. -/
theorem leafState_ne_partially (leaf : Comparison) : c.leafState leaf ≠ .partially := by
  have hunanswerable : c.unanswerable leaf.field ≠ .partially := by
    rcases c.unanswerable_cases leaf.field with h | h <;> rw [h] <;> decide
  unfold leafState fieldState
  split
  · decide
  · split
    · cases leaf.op with
      | eq | regex =>
        show (if leaf.literal.isNull then _ else _) ≠ _
        split <;> decide
      | _ => nofun
    · cases leaf.op with
      | eq | regex | ne =>
        dsimp only
        split
        · decide
        · exact hunanswerable
      | _ => exact byRecord_ne_partially [leaf.field]

/-- A unit is not partly answered, and its cause is the printed unit or what it marks. -/
theorem unit?_cases {m : Marker} {whole q : Query} {r : Classification}
    (h : c.unit? m whole q = some r) :
    r.state ≠ .partially ∧ ∃ cause, (cause = whole ∨ cause = q) ∧
      r.contributors = if r.state = .ignorable then .none else .single r.state cause.render := by
  cases m with
  | bounded =>
    obtain ⟨b, -, rfl⟩ := Option.map_eq_some_iff.1 h
    refine ⟨?_, whole, .inl rfl, rfl⟩
    unfold ofUnit
    dsimp only
    split
    · decide
    · split
      · decide
      · exact byRecord_ne_partially [b.field]
  | list | term | lenient | strict => cases h
  | delayed | exceededTerm | indexHole =>
    cases h
    exact ⟨nofun, q, .inr rfl, rfl⟩
  | evaluationOnly =>
    cases h
    exact ⟨byRecord_ne_partially q.fields, q, .inr rfl, rfl⟩
  | exceededValue | exceededOr | drop =>
    cases h
    exact ⟨nofun, whole, .inl rfl, rfl⟩

/-- What is told of a query, beneath any negations. -/
theorem tell_classifyWith (q : Query) (negated odd : Bool) :
    (c.classifyWith negated odd q).contributors.Tell (c.classifyWith negated odd q).state
      (c.silent negated q) := by
  induction q using Query.induction generalizing negated odd with
  | junction kind cs ih =>
    rw [silent, silentAll_eq_all, classifyWith, classifyAll_eq_map]
    apply tell_settle
    -- a chain of negations ends at the junction, and so each child begins a new one
    rw [ofJunction, List.map_map, List.foldl_map]
    exact Tell.junction fun q hq => ih q hq negated false
  | not q ih =>
    rw [silent, classifyWith]
    exact ih (!negated) (!odd)
  | group q ih =>
    rw [silent, classifyWith]
    exact ih negated odd
  | compare leaf =>
    rw [silent, classifyWith]
    exact tell_settle odd (Contributors.tell_unit (leafState_ne_partially leaf) (.compare leaf))
  | call call =>
    have hstate : ExecState.nonExecutable ≠ .partially := by decide
    rw [silent, classifyWith]
    exact tell_settle odd (Contributors.tell_unit hstate (.call call))
  | marked m note q ih =>
    rw [silent, classifyWith, unitState?]
    apply tell_settle
    cases hunit : c.unit? m (.marked m note q) q with
    | none => exact ih negated false
    | some r =>
      -- the unit is judged as a whole
      obtain ⟨hstate, cause, -, hcontributors⟩ := unit?_cases hunit
      show r.contributors.Tell r.state false
      rw [hcontributors]
      exact Contributors.tell_unit hstate cause

/-! ## Texts -/

theorem exists_mem_of_mem_settle {odd : Bool} {r : Classification} {s : ExecState} {t : String}
    (h : t ∈ (c.settle odd r).contributors.termsOf s) : ∃ s', t ∈ r.contributors.termsOf s' := by
  cases odd with
  | false => exact ⟨s, h⟩
  | true =>
    obtain ⟨s', -, ht⟩ := mem_negate.1 h
    exact ⟨s', ht⟩

/-- The text of a unit is that of its cause. -/
theorem eq_render_of_mem_unit {state s : ExecState} {cause : Query} {t : String}
    (h : t ∈ Contributors.termsOf
      (if state = .ignorable then .none else .single state cause.render) s) : t = cause.render := by
  split at h
  · exact absurd h Contributors.not_mem_none
  · exact (Contributors.mem_single.1 h).2

/-- Every text is a printed part of the query. -/
theorem exists_render_eq {q : Query} {negated odd : Bool} {s : ExecState} {t : String}
    (h : t ∈ (c.classifyWith negated odd q).contributors.termsOf s) :
    ∃ p ∈ q.subtrees, t = p.render := by
  induction q using Query.induction generalizing negated odd s with
  | junction kind cs ih =>
    rw [classifyWith, classifyAll_eq_map] at h
    obtain ⟨s', h⟩ := exists_mem_of_mem_settle h
    rw [ofJunction, List.foldl_map] at h
    rcases Contributors.mem_foldl_absorb.1 h with h | ⟨-, q, hq, h⟩
    · exact absurd h Contributors.not_mem_none
    · obtain ⟨p, hp, ht⟩ := ih q hq h
      exact ⟨p, Query.mem_subtrees_of_child hq hp, ht⟩
  | not q ih | group q ih =>
    rw [classifyWith] at h
    obtain ⟨p, hp, ht⟩ := ih h
    exact ⟨p, Query.mem_subtrees_of_child List.mem_cons_self hp, ht⟩
  | compare leaf | call call =>
    rw [classifyWith] at h
    obtain ⟨s', h⟩ := exists_mem_of_mem_settle h
    exact ⟨_, Query.self_mem_subtrees _, eq_render_of_mem_unit h⟩
  | marked m note q ih =>
    rw [classifyWith] at h
    obtain ⟨s', h⟩ := exists_mem_of_mem_settle h
    cases hunit : c.unit? m (.marked m note q) q with
    | none =>
      rw [hunit] at h
      obtain ⟨p, hp, ht⟩ := ih h
      exact ⟨p, Query.mem_subtrees_of_child List.mem_cons_self hp, ht⟩
    | some r =>
      obtain ⟨-, cause, hcause, hcontributors⟩ := unit?_cases hunit
      rw [hunit, Option.getD_some, hcontributors] at h
      refine ⟨cause, ?_, eq_render_of_mem_unit h⟩
      rcases hcause with rfl | rfl
      · exact Query.self_mem_subtrees _
      · exact Query.mem_subtrees_of_child List.mem_cons_self (Query.self_mem_subtrees _)

end Classifier

/-! ## Queries -/

/-- Every contributor to the state of a query is a printed part of it. There is one unless the
    query asks for nothing or nothing is told of it, which takes a part that is left to the
    record; and if there is one the summary lists one. -/
theorem contributors_of_classify (catalog : Catalog) (config : Config) (mode : ExecMode)
    (q : Query) :
    let c := Classifier.ofCatalog catalog config mode
    let r := c.classify q
    let limit := config.maxTermsToPrint
    (∀ s, ∀ t ∈ r.contributors.termsOf s, ∃ p ∈ q.subtrees, t = p.render) ∧
      (r.contributors.isEmpty = true ↔ r.state = .ignorable ∨ c.silent false q = true) ∧
      (c.silent false q = true → r.state = .nonExecutable ∨ r.state = .partially) ∧
      (r.contributors.isEmpty = false → 1 ≤ limit →
        ∃ p ∈ q.subtrees, ∃ s more front back,
          (r.contributors.termsOf s).toList.take limit = p.render :: more ∧
          r.contributors.summary limit =
            front ++ ("[" ++ ", ".intercalate (p.render :: more) ++ "]") ++ back) := by
  intro c r limit
  have htell : r.contributors.Tell r.state (c.silent false q) := c.tell_classifyWith q false false
  have htexts : ∀ s, ∀ t ∈ r.contributors.termsOf s, ∃ p ∈ q.subtrees, t = p.render := by
    intro s t ht
    exact c.exists_render_eq ht
  refine ⟨htexts, htell.isEmpty_iff, ?_, ?_⟩
  · intro hsilent
    exact ExecState.of_leavesSome (htell.untold hsilent).1
  · intro hempty hlimit
    -- some state has a text, and the summary begins with the first one of that state
    obtain ⟨s, t, ht⟩ := Contributors.isEmpty_eq_false_iff.1 hempty
    obtain ⟨first, more, front, back, htake, hsummary⟩ := Contributors.summary_of_mem hlimit ht
    have hfirst : first ∈ r.contributors.termsOf s := by
      have hmem : first ∈ (r.contributors.termsOf s).toList.take limit := by
        rw [htake]
        exact List.mem_cons_self
      exact List.mem_of_mem_take hmem
    obtain ⟨p, hp, rfl⟩ := htexts s first hfirst
    exact ⟨p, hp, s, more, front, back, htake, hsummary⟩

/-- `B == 'b' || EVENT == 'x'` -/
def halfQuery : Query :=
  .disj [.compareWith .eq "B" (.string "b"), .compareWith .eq "EVENT" (.string "x")]

/-- The disjunction is partly answered for the child that is not. -/
theorem contributors_of_classify_halfQuery :
    let r := (Classifier.ofCatalog pairCatalog {} .globalIndex).classify halfQuery
    r.contributors.isEmpty = false ∧ 1 ≤ ({} : Config).maxTermsToPrint ∧
      ∃ p ∈ halfQuery.subtrees, ∃ s more front back,
        (r.contributors.termsOf s).toList.take 3 = p.render :: more ∧
        r.contributors.summary 3 =
          front ++ ("[" ++ ", ".intercalate (p.render :: more) ++ "]") ++ back := by
  intro r
  have hempty : r.contributors.isEmpty = false := by decide +kernel
  have hlimit : 1 ≤ ({} : Config).maxTermsToPrint := by decide
  obtain ⟨-, -, -, hlisted⟩ := contributors_of_classify pairCatalog {} .globalIndex halfQuery
  exact ⟨hempty, hlimit, hlisted hempty hlimit⟩

/-- Beside a child that finds the records, the same disjunction leaves nothing to tell. -/
theorem not_forall_contributors :
    ¬ ∀ (catalog : Catalog) (config : Config) (mode : ExecMode) (q : Query),
      let r := (Classifier.ofCatalog catalog config mode).classify q
      r.state ≠ .ignorable → r.contributors.isEmpty = false := by
  intro hall
  have hstate : ((Classifier.ofCatalog pairCatalog {} .globalIndex).classify branchQuery).state =
      .partially := by decide +kernel
  have hempty : ((Classifier.ofCatalog pairCatalog {} .globalIndex).classify
      branchQuery).contributors.isEmpty = true := by decide +kernel
  have hsome := hall pairCatalog {} .globalIndex branchQuery (by rw [hstate]; decide)
  rw [hempty] at hsome
  cases hsome

end IndexQuery
