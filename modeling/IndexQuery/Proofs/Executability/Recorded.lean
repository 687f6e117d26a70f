import IndexQuery.Proofs.Executability.Classification
import IndexQuery.Proofs.Query.Lineage
import Mathlib.Data.List.Forall2

/-! # The states recorded for the nodes

    A classification lists one state for each node. The list is in the order in which a
    lineage numbers the nodes, so the state of a node is found by its number.

    * `Classifier.states_of_not_isUnit`: the state of a node comes before those recorded
      beneath it.
    * `Classifier.prefix_of_outside`: the states recorded for a subtree begin at its number.
    * `Classifier.prefix_of_inside`: beneath a unit there is only the state of the unit.
    * `Classifier.Recorded`: the state of each node, by those recorded for its children.
    * `recorded_classify`: a classification records these states, one for each node.
-/

namespace IndexQuery

/-! ## Chains of negations -/

namespace Query

/-- What chains of negations are made of: the negations, and groups between them. -/
def isLink : Query → Bool
  | .not _ | .group _ => true
  | _ => false

/-- Whether a query is a negation. -/
def isNegation : Query → Bool
  | .not _ => true
  | _ => false

end Query

namespace Lineage

/-- Whether an odd number of negations is among some nodes. -/
def oddly (nodes : List (Nat × Query)) : Bool := nodes.countP (·.2.isNegation) % 2 == 1

/-- The links right above a node. -/
def chain (above : List (Nat × Query)) : List (Nat × Query) := above.takeWhile (·.2.isLink)

variable {i : Nat} {q : Query} {above : List (Nat × Query)}

theorem oddly_cons : oddly ((i, q) :: above) = (oddly above ^^ q.isNegation) := by
  unfold oddly
  rw [List.countP_cons]
  cases q.isNegation with
  | false => simp
  | true => rcases Nat.mod_two_eq_zero_or_one (above.countP (·.2.isNegation)) with h | h <;>
      simp [Nat.add_mod, h]

theorem chain_cons_of_isLink (h : q.isLink = true) :
    chain ((i, q) :: above) = (i, q) :: chain above := by
  simp [chain, h]

theorem chain_cons_of_not_isLink (h : q.isLink = false) : chain ((i, q) :: above) = [] := by
  simp [chain, h]

theorem oddly_chain_cons :
    oddly (chain ((i, q) :: above)) = (q.isLink && (oddly (chain above) ^^ q.isNegation)) := by
  cases h : q.isLink with
  | true => rw [chain_cons_of_isLink h, oddly_cons, Bool.true_and]
  | false =>
    rw [chain_cons_of_not_isLink h]
    rfl

theorem oddly_of_forall_not (h : ∀ p ∈ above, p.2.isNegation = false) : oddly above = false := by
  have hcount : above.countP (·.2.isNegation) = 0 := by
    rw [List.countP_eq_zero]
    intro p hp
    simp [h p hp]
  rw [oddly, hcount]
  rfl

end Lineage

namespace Classifier

open Lineage

variable (c : Classifier)

/-! ## One node -/

/-- Whether a query is classified as a unit. -/
def isUnit : Query → Bool
  | .marked m note q => (c.unitState? m (.marked m note q) q).isSome
  | _ => false

/-- The state recorded for a node. Links have it from the chain, and the chain has it from
    what it negates. -/
def recorded (negated odd : Bool) (q : Query) : ExecState := c.stateWith negated (q.isLink && odd) q

theorem state_classifyWith (negated odd : Bool) (q : Query) :
    (c.classifyWith negated odd q).state = c.stateWith negated odd q := rfl

theorem states_settle (odd : Bool) (r : Classification) : (c.settle odd r).states = r.states := by
  obtain ⟨state, contributors, states, exceeded⟩ := r
  cases odd with
  | false => rfl
  | true =>
    rw [settle, if_pos rfl]
    unfold negate
    cases c.mode <;> cases state <;> rfl

/-- A unit has one state for all of its nodes. -/
theorem states_of_unit? {m : Marker} {whole q : Query} {r : Classification}
    (h : c.unit? m whole q = some r) : r.states = .replicate whole.nodeCount r.state := by
  cases m with
  | bounded =>
    obtain ⟨b, -, rfl⟩ := Option.map_eq_some_iff.1 h
    rfl
  | list | term | lenient | strict => cases h
  | delayed | evaluationOnly | exceededTerm | indexHole | exceededValue | exceededOr | drop =>
    cases h
    rfl

theorem states_of_isUnit {q : Query} (h : c.isUnit q = true) (negated odd : Bool) :
    (c.classifyWith negated odd q).states =
      .replicate q.nodeCount (c.recorded negated odd q) := by
  cases q with
  | marked m note q =>
    obtain ⟨s, hs⟩ := Option.isSome_iff_exists.1 h
    obtain ⟨r, hr, rfl⟩ := Option.map_eq_some_iff.1 hs
    rw [classifyWith, states_settle, hr, Option.getD_some, c.states_of_unit? hr, recorded]
    simp [Query.isLink, hs]
  | _ => cases h

/-- The state of a node that is no unit comes before those recorded beneath it. -/
theorem states_of_not_isUnit {q : Query} (h : c.isUnit q = false) (negated odd : Bool) :
    (c.classifyWith negated odd q).states =
      c.recorded negated odd q :: q.children.flatMap fun child =>
        (c.classifyWith (negated ^^ q.isNegation) (q.isLink && (odd ^^ q.isNegation))
          child).states := by
  -- links hand the parity on, beneath anything else a new chain begins
  cases q with
  | junction kind cs =>
    rw [classifyWith, states_settle, classifyAll_eq_map, ofJunction, recorded]
    simp [Query.isLink, Query.isNegation, Query.children, List.flatMap_map, Function.comp_def,
      state_classifyWith]
  | not child =>
    rw [classifyWith, recorded]
    simp [handOn, Query.isLink, Query.isNegation, Query.children, state_classifyWith]
  | group child =>
    rw [classifyWith, recorded]
    simp [handOn, Query.isLink, Query.isNegation, Query.children, state_classifyWith]
  | compare leaf =>
    rw [classifyWith, states_settle, recorded]
    simp [ofUnit, Query.isLink, Query.children, Query.nodeCount]
  | call call =>
    rw [classifyWith, states_settle, recorded]
    simp [ofUnit, Query.isLink, Query.children, Query.nodeCount]
  | marked m note child =>
    have hnone : c.unit? m (.marked m note child) child = none := by
      simpa [isUnit, unitState?] using h
    rw [classifyWith, states_settle, hnone, recorded]
    simp [handOn, unitState?, hnone, Query.isLink, Query.isNegation, Query.children, state_classifyWith]

/-- The state recorded for a node comes first. -/
theorem head?_states (negated odd : Bool) (q : Query) :
    (c.classifyWith negated odd q).states.head? = some (c.recorded negated odd q) := by
  cases h : c.isUnit q with
  | true =>
    rw [c.states_of_isUnit h, Query.nodeCount_eq, Nat.add_comm, List.replicate_succ,
      List.head?_cons]
  | false => rw [c.states_of_not_isUnit h, List.head?_cons]

/-- There is one state for each node. -/
theorem length_states (negated odd : Bool) (q : Query) :
    (c.classifyWith negated odd q).states.length = q.nodeCount := by
  induction q using Query.induction_children generalizing negated odd with
  | h q ih =>
    cases h : c.isUnit q with
    | true => rw [c.states_of_isUnit h, List.length_replicate]
    | false =>
      rw [c.states_of_not_isUnit h, List.length_cons,
        Query.length_flatMap fun child hchild => ih child hchild _ _, Query.nodeCount_eq,
        Nat.add_comm]

/-! ## Subtrees -/

variable {c} {root q : Query} {i : Nat} {above : List (Nat × Query)}

/-- Whether nothing above a node is a unit. -/
def Outside (c : Classifier) (above : List (Nat × Query)) : Prop := ∀ p ∈ above, c.isUnit p.2 = false

theorem outside_cons :
    c.Outside ((i, q) :: above) ↔ c.isUnit q = false ∧ c.Outside above :=
  List.forall_mem_cons

/-- What is listed for each child is listed for the children with their numbers. -/
theorem flatMap_children {α : Type} (items : Query → List α) (first : Nat) (q : Query) :
    q.children.flatMap items = (numbered first q.children).flatMap fun p => items p.2 := by
  conv_lhs => rw [← map_snd_numbered first q.children, List.flatMap_map]

/-- Outside units, the states recorded for a subtree begin at its number. -/
theorem prefix_of_outside (h : Path root i q above) (hout : c.Outside above) :
    (c.classifyWith (oddly above) (oddly (chain above)) q).states <+:
      (c.classify root).states.drop i := by
  induction h with
  | root => exact List.prefix_rfl
  | @child i j k q child above h hj hchild ih =>
    obtain ⟨hunit, hout⟩ := outside_cons.1 hout
    have hstates := ih hout
    rw [c.states_of_not_isUnit hunit, flatMap_children _ (i + 1)] at hstates
    rw [oddly_chain_cons, oddly_cons]
    -- the states of a child are a stretch of those recorded beneath its parent
    exact prefix_of_mem_numbered _ (fun p => c.length_states _ _ p.2) (prefix_of_cons hstates)
      (h.mem_numbered hj hchild)

/-- The state recorded for a node outside units. -/
theorem getElem?_of_outside (h : Path root i q above) (hout : c.Outside above) :
    (c.classify root).states[i]? = some (c.recorded (oddly above) (oddly (chain above)) q) := by
  obtain ⟨rest, hrest⟩ := prefix_of_outside h hout
  rw [← List.head?_drop, ← hrest, List.head?_append, head?_states, Option.some_or]

theorem replicate_nodeCountAll (first : Nat) (cs : List Query) (s : ExecState) :
    List.replicate (Query.nodeCountAll cs) s =
      (numbered first cs).flatMap fun p => List.replicate p.2.nodeCount s := by
  induction cs generalizing first with
  | nil => rfl
  | cons child cs ih =>
    rw [Query.nodeCountAll, List.replicate_add, ih (first + child.nodeCount), numbered,
      List.flatMap_cons]

/-- Where one state is recorded for a whole subtree, it is recorded for the root and for the
    subtrees of its children. -/
theorem of_prefix_replicate {s : ExecState} {states : List ExecState}
    (h : List.replicate q.nodeCount s <+: states.drop i) :
    states[i]? = some s ∧
      ∀ p ∈ numbered (i + 1) q.children, List.replicate p.2.nodeCount s <+: states.drop p.1 := by
  rw [Query.nodeCount_eq, Nat.add_comm, List.replicate_succ] at h
  constructor
  · obtain ⟨rest, hrest⟩ := h
    rw [← List.head?_drop, ← hrest]
    rfl
  · intro p hp
    have hchildren := prefix_of_cons h
    rw [replicate_nodeCountAll (i + 1)] at hchildren
    exact prefix_of_mem_numbered (fun p => List.replicate p.2.nodeCount s)
      (fun p => List.length_replicate) hchildren hp

/-- Beneath a unit, the state of the unit is recorded for each node. -/
theorem prefix_of_inside (h : Path root i q above) (hin : ¬ c.Outside above) :
    ∃ s, List.replicate q.nodeCount s <+: (c.classify root).states.drop i ∧
      ∀ p ∈ above, c.isUnit p.2 = true → (c.classify root).states[p.1]? = some s := by
  induction h with
  | root => exact absurd nofun hin
  | @child i j k q child above h hj hchild ih =>
    have hmem := h.mem_numbered hj hchild
    by_cases hout : c.Outside above
    · -- the parent is the unit
      have hunit : c.isUnit q = true := by
        by_contra hnot
        exact hin (outside_cons.2 ⟨by simpa using hnot, hout⟩)
      have hstates := prefix_of_outside h hout
      rw [c.states_of_isUnit hunit] at hstates
      obtain ⟨hself, hchildren⟩ := of_prefix_replicate hstates
      refine ⟨_, hchildren _ hmem, ?_⟩
      rintro p hp hpunit
      rcases List.mem_cons.1 hp with rfl | hp
      · exact hself
      · rw [hout p hp] at hpunit
        cases hpunit
    · obtain ⟨s, hstates, hunits⟩ := ih hout
      obtain ⟨hself, hchildren⟩ := of_prefix_replicate hstates
      exact ⟨s, hchildren _ hmem, List.forall_mem_cons.2 ⟨fun _ => hself, hunits⟩⟩

/-- What is recorded beneath a unit is recorded for the unit. -/
theorem getElem?_of_unit_above (h : Path root i q above) {p : Nat × Query} (hp : p ∈ above)
    (hunit : c.isUnit p.2 = true) :
    (c.classify root).states[i]? = (c.classify root).states[p.1]? := by
  have hin : ¬ c.Outside above := by
    intro hout
    rw [hout p hp] at hunit
    cases hunit
  obtain ⟨s, hstates, hunits⟩ := prefix_of_inside h hin
  rw [(of_prefix_replicate hstates).1, hunits p hp hunit]

/-! ## Chains -/

/-- A link has its state from the query beneath it, seen from behind the link. -/
theorem stateWith_of_isLink {child : Query} (hlink : q.isLink = true) (hchild : child ∈ q.children)
    (negated odd : Bool) :
    c.stateWith negated odd q =
      c.stateWith (negated ^^ q.isNegation) (odd ^^ q.isNegation) child := by
  cases q with
  | not d =>
    obtain rfl := List.mem_singleton.1 hchild
    simp [Query.isNegation]
  | group d =>
    obtain rfl := List.mem_singleton.1 hchild
    simp [Query.isNegation]
  | junction | compare | call | marked => cases hlink

/-- What a chain of negations negates is negated once, if at all. -/
theorem stateWith_of_not_isLink (hlink : q.isLink = false) (negated odd : Bool) :
    c.stateWith negated odd q = c.settled odd (c.stateWith negated false q) := by
  cases q with
  | not | group => cases hlink
  | junction | compare | call | marked => simp

/-- All links of a chain have the state of what is beneath them. -/
theorem getElem?_of_mem_chain (h : Path root i q above) (hout : c.Outside above)
    {p : Nat × Query} (hp : p ∈ chain above) :
    (c.classify root).states[p.1]? =
      some (c.stateWith (oddly above) (oddly (chain above)) q) := by
  induction h with
  | root => cases hp
  | @child i j k q child above h hj hchild ih =>
    obtain ⟨-, hout'⟩ := outside_cons.1 hout
    cases hlink : q.isLink with
    | false =>
      rw [chain_cons_of_not_isLink hlink] at hp
      cases hp
    | true =>
      -- a link sees what is beneath it through one negation more, or none
      have hstate := c.stateWith_of_isLink hlink (List.mem_of_getElem? hchild) (oddly above)
        (oddly (chain above))
      rw [oddly_chain_cons, oddly_cons, hlink, Bool.true_and, ← hstate]
      rw [chain_cons_of_isLink hlink] at hp
      rcases List.mem_cons.1 hp with rfl | hp
      · rw [getElem?_of_outside h hout', recorded, hlink, Bool.true_and]
      · exact ih hout' hp

/-! ## Nodes and their children -/

/-- The state recorded for what negates nothing. -/
theorem getElem?_of_not_isLink (h : Path root i q above) (hout : c.Outside above)
    (hlink : q.isLink = false) :
    (c.classify root).states[i]? = some (c.stateWith (oddly above) false q) := by
  rw [getElem?_of_outside h hout, recorded, hlink, Bool.false_and]

/-- The state recorded for a child of what is neither a link nor a unit. -/
theorem getElem?_of_mem_numbered (h : Path root i q above) (hout : c.Outside above)
    (hlink : q.isLink = false) (hunit : c.isUnit q = false) {p : Nat × Query}
    (hp : p ∈ numbered (i + 1) q.children) :
    (c.classify root).states[p.1]? = some (c.stateWith (oddly above) false p.2) := by
  have hneg : q.isNegation = false := by
    cases q with
    | not => cases hlink
    | junction | compare | call | group | marked => rfl
  rw [getElem?_of_outside (h.of_mem_numbered hp) (outside_cons.2 ⟨hunit, hout⟩), recorded,
    oddly_chain_cons, oddly_cons, hlink, hneg, Bool.false_and, Bool.and_false, Bool.xor_false]

/-- A junction combines the states recorded for its children. -/
theorem exists_below_of_junction {kind : Junction} {cs : List Query}
    (h : Path root i (.junction kind cs) above) (hout : c.Outside above) :
    ∃ below, List.Forall₂ (fun j s => (c.classify root).states[j]? = some s)
        ((build root).children i) below ∧
      (c.classify root).states[i]? =
        some ((Combine.ofJunction kind (oddly above)).apply below) := by
  refine ⟨cs.map (c.stateWith (oddly above) false), ?_, ?_⟩
  · -- the numbers and the states are those of the same children
    have hcs : cs = (numbered (i + 1) cs).map (·.2) := (map_snd_numbered _ _).symm
    rw [h.children_eq, List.forall₂_map_left_iff, hcs, List.map_map,
      List.forall₂_map_right_iff, ← hcs]
    exact List.forall₂_same.2 fun p hp => getElem?_of_mem_numbered h hout rfl rfl hp
  · rw [getElem?_of_not_isLink h hout rfl, stateWith_junction, settled_false]

/-- A group has the state recorded for its child, unless a negation comes to it. -/
theorem getElem?_of_group (h : Path root i (.group q) above) (hout : c.Outside above)
    (hchain : ∀ p ∈ chain above, p.2.isNegation = false) :
    (c.classify root).states[i]? = (c.classify root).states[i + 1]? := by
  have hmem : (i + 1, q) ∈ numbered (i + 1) (Query.group q).children := List.mem_cons_self
  have heven := oddly_of_forall_not hchain
  rw [getElem?_of_outside h hout,
    getElem?_of_outside (h.of_mem_numbered hmem) (outside_cons.2 ⟨rfl, hout⟩), recorded,
    recorded, oddly_chain_cons, oddly_cons, heven]
  simp [Query.isNegation]

/-- A marker that makes no unit has the state recorded for its child. -/
theorem getElem?_of_marked {m : Marker} {note : Option DropNote}
    (h : Path root i (.marked m note q) above) (hout : c.Outside above)
    (hunit : c.isUnit (.marked m note q) = false) :
    (c.classify root).states[i]? = (c.classify root).states[i + 1]? := by
  have hmem : (i + 1, q) ∈ numbered (i + 1) (Query.marked m note q).children := List.mem_cons_self
  have hnone : c.unitState? m (.marked m note q) q = none := by
    simpa [isUnit] using hunit
  rw [getElem?_of_not_isLink h hout rfl, getElem?_of_mem_numbered h hout rfl hunit hmem,
    stateWith_marked, hnone, Option.getD_none, settled_false]

/-! ## All nodes -/

/-- What the states recorded for the nodes of a tree have to do with each other. A node is
    found by its number, its children by the numbers that the lineage records for them. -/
structure Recorded (c : Classifier) (root : Query) (states : List ExecState) : Prop where
  /-- Comparisons and calls have a state of their own, and so have units. -/
  compare : ∀ {i leaf above}, Path root i (.compare leaf) above → c.Outside above →
    states[i]? = some (c.leafState leaf)
  call : ∀ {i call above}, Path root i (.call call) above → c.Outside above →
    states[i]? = some .nonExecutable
  unit : ∀ {i m note q above s}, Path root i (.marked m note q) above → c.Outside above →
    c.unitState? m (.marked m note q) q = some s → states[i]? = some s
  /-- A junction combines the states of its children, by the negations above it. -/
  junction : ∀ {i kind cs above}, Path root i (.junction kind cs) above → c.Outside above →
    ∃ below, List.Forall₂ (fun j s => states[j]? = some s) ((build root).children i) below ∧
      states[i]? = some ((Combine.ofJunction kind (oddly above)).apply below)
  /-- A group that no chain of negations comes to has the state of its child. -/
  group : ∀ {i q above}, Path root i (.group q) above → c.Outside above →
    (∀ p ∈ chain above, p.2.isNegation = false) →
      ∃ j, (build root).children i = [j] ∧ states[i]? = states[j]?
  /-- A marker that makes no unit hands on the state of its child. -/
  marked : ∀ {i m note q above}, Path root i (.marked m note q) above → c.Outside above →
    c.isUnit (.marked m note q) = false →
      ∃ j, (build root).children i = [j] ∧ states[i]? = states[j]?
  /-- All links of a chain have the state of what the chain negates, negated once if the
      number of negations is odd. -/
  chain : ∀ {i q above}, Path root i q above → c.Outside above → q.isLink = false →
    ∀ p ∈ chain above, states[p.1]? = states[i]?.map (c.settled (oddly (chain above)))
  /-- Beneath a unit, everything has the state of the unit. -/
  beneath : ∀ {i q above}, Path root i q above → ∀ p ∈ above, c.isUnit p.2 = true →
    states[i]? = states[p.1]?

/-- A classification records states that have to do with each other as they should. -/
theorem recorded_states (c : Classifier) (root : Query) :
    c.Recorded root (c.classify root).states where
  compare h hout := by rw [getElem?_of_not_isLink h hout rfl, stateWith_compare, settled_false]
  call h hout := by rw [getElem?_of_not_isLink h hout rfl, stateWith_call, settled_false]
  unit h hout hs := by
    rw [getElem?_of_not_isLink h hout rfl, stateWith_marked, hs, Option.getD_some, settled_false]
  junction h hout := exists_below_of_junction h hout
  group h hout hchain := ⟨_, h.children_eq, getElem?_of_group h hout hchain⟩
  marked h hout hunit := ⟨_, h.children_eq, getElem?_of_marked h hout hunit⟩
  chain h hout hlink p hp := by
    rw [getElem?_of_mem_chain h hout hp, getElem?_of_not_isLink h hout hlink, Option.map_some,
      c.stateWith_of_not_isLink hlink]
  beneath h p hp hunit := getElem?_of_unit_above h hp hunit

end Classifier

/-! ## Queries -/

/-- The states that a classification records are in the order in which a lineage numbers the
    nodes. There is one for each node, the first is the reported one, and each follows from
    those recorded for the children of the node. -/
theorem recorded_classify (catalog : Catalog) (config : Config) (mode : ExecMode) (root : Query) :
    let c := Classifier.ofCatalog catalog config mode
    (c.classify root).states.length = (Lineage.build root).size ∧
      (Lineage.build root).size = root.nodeCount ∧
      (c.classify root).states[0]? = some (c.classify root).state ∧
      (∀ i < (Lineage.build root).size, ∃ q above, Lineage.Path root i q above) ∧
      c.Recorded root (c.classify root).states := by
  intro c
  refine ⟨?_, Lineage.size_build root, ?_, fun i => Lineage.exists_path, c.recorded_states root⟩
  · rw [Lineage.size_build]
    exact c.length_states false false root
  · rw [Classifier.getElem?_of_outside .root nofun, Classifier.recorded, Lineage.chain,
      List.takeWhile_nil, c.state_classify]
    simp [Lineage.oddly]

/-- Fields `A` and `B` are indexed. -/
def negatedPairCatalog : Catalog :=
  { fields := .ofList [("A", { indexed := true }), ("B", { indexed := true })] }

/-- `!(A == 'a' && B == 'b')` -/
def negatedPair : Query :=
  .not (.group (.conj [.compareWith .eq "A" (.string "a"), .compareWith .eq "B" (.string "b")]))

/-- The conjunction can be answered, and the negation and the group have its state turned
    round. -/
theorem recorded_classify_negatedPair :
    let r := (Classifier.ofCatalog negatedPairCatalog {} .fieldIndex).classify negatedPair
    r.states.length = 5 ∧ r.states[2]? = some .executable ∧
      r.states[0]? = some .negatedExecutable ∧ r.states[1]? = some .negatedExecutable := by
  obtain ⟨hlen, -, -, -, hrecorded⟩ := recorded_classify negatedPairCatalog {} .fieldIndex negatedPair
  have hgroup : Lineage.Path negatedPair 1 _ [(0, negatedPair)] := .child (k := 0) .root rfl rfl
  have hconj : Lineage.Path negatedPair 2 _ [(1, _), (0, negatedPair)] :=
    .child (k := 0) hgroup rfl rfl
  have hchain := hrecorded.chain hconj
    (Classifier.outside_cons.2 ⟨rfl, Classifier.outside_cons.2 ⟨rfl, nofun⟩⟩) rfl
  have hstate : ((Classifier.ofCatalog negatedPairCatalog {} .fieldIndex).classify negatedPair).states[2]?
      = some .executable := by decide
  have hnegation := hchain _ (List.mem_cons_of_mem _ List.mem_cons_self)
  have hgroup := hchain _ List.mem_cons_self
  rw [hstate] at hnegation hgroup
  exact ⟨hlen, hstate, hnegation, hgroup⟩

end IndexQuery
