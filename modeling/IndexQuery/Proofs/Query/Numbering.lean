import IndexQuery.Proofs.Query.Address
import Mathlib.Logic.Relation

/-! # What a lineage says of a tree

    A lineage can be checked without the tree, and that of a tree passes the check. It says of
    every node where its subtree is, what its children are and how deep it stands.

    * `Lineage.Consistent`: parents and children agree.
    * `Lineage.violation?_eq_none_iff`: the check finds nothing just where they do.
    * `Lineage.consistent_build`: in the lineage of a tree they do.
    * `Lineage.exists_path_number`: the node at an address is found under its number.
    * `Lineage.LeadsUp`: the way up by the recorded parents.
    * `Lineage.Depicts`: what is to be said of a node.
    * `Lineage.depicts_build`: the lineage of a tree says it of every node.
-/

namespace IndexQuery.Lineage

/-! ## Checking -/

section Checking

variable {l : Lineage} {i j p : Nat}

/-- Parents and children agree. -/
structure Consistent (l : Lineage) : Prop where
  /-- The first node alone has no parent. -/
  parent?_eq_none_iff : ∀ i < l.size, l.parent? i = none ↔ i = 0
  /-- A node is listed once by its parent, -/
  count_children : ∀ {i p}, l.parent? i = some p → (l.children p).count i = 1
  /-- and by no other node. -/
  parent?_of_mem : ∀ {i j}, j ∈ l.children i → l.parent? j = some i

theorem parent?_of_getElem? {slot : LineageSlot} (h : l.slots[i]? = some slot) :
    l.parent? i = slot.parent := by
  rw [parent?, h, Option.bind_some]

theorem children_of_getElem? {slot : LineageSlot} (h : l.slots[i]? = some slot) :
    l.children i = slot.children := by
  rw [children, h, Option.map_some, Option.getD_some]

theorem lt_size_of_parent? (h : l.parent? i = some p) : i < l.size := by
  obtain ⟨slot, hslot, -⟩ := Option.bind_eq_some_iff.1 h
  exact (List.getElem?_eq_some_iff.1 hslot).1

theorem lt_size_of_mem_children (h : j ∈ l.children i) : i < l.size := by
  by_contra hle
  have hnone : l.slots[i]? = none := List.getElem?_eq_none (Nat.le_of_not_lt hle)
  simp [children, hnone] at h

/-- A node is listed by its parent. -/
theorem Consistent.mem_children (h : l.Consistent) (hp : l.parent? i = some p) :
    i ∈ l.children p := by
  rw [← List.count_pos_iff, h.count_children hp]
  exact Nat.one_pos

/-- No node is listed as a child twice: it would be counted twice by one parent, or have two
    of them. -/
theorem Consistent.nodup_children (h : l.Consistent) :
    (l.slots.flatMap (·.children)).Nodup := by
  rw [List.nodup_flatMap]
  constructor
  · intro slot hmem
    obtain ⟨i, hslot⟩ := List.mem_iff_getElem?.1 hmem
    rw [← children_of_getElem? hslot, List.nodup_iff_count_le_one]
    intro j
    by_cases hj : j ∈ l.children i
    · exact (h.count_children (h.parent?_of_mem hj)).le
    · rw [List.count_eq_zero.2 hj]
      exact Nat.zero_le 1
  · rw [List.pairwise_iff_getElem]
    intro i k hi hk hlt j hij hkj
    have hleft : j ∈ l.children i := by rwa [children_of_getElem? (List.getElem?_eq_getElem hi)]
    have hright : j ∈ l.children k := by rwa [children_of_getElem? (List.getElem?_eq_getElem hk)]
    have heq := (h.parent?_of_mem hleft).symm.trans (h.parent?_of_mem hright)
    exact hlt.ne (Option.some.inj heq)

theorem parentViolation?_eq_none_iff {parent : Option Nat} :
    l.parentViolation? i parent = none ↔
      (parent = none ↔ i = 0) ∧ ∀ p, parent = some p → (l.children p).count i = 1 := by
  cases parent with
  | none => by_cases h : i = 0 <;> simp [parentViolation?, h]
  | some p => by_cases h : i = 0 <;> simp [parentViolation?, h]

theorem childViolation?_eq_none_iff {seen ids : List Nat} :
    l.childViolation? i seen ids = none ↔
      (∀ j ∈ ids, l.parent? j = some i) ∧ ids.Nodup ∧ ∀ j ∈ ids, j ∉ seen := by
  induction ids generalizing seen with
  | nil => simp [childViolation?]
  | cons j ids ih =>
    rw [childViolation?]
    by_cases hseen : j ∈ seen
    · simp [hseen]
    · by_cases hparent : l.parent? j = some i
      · -- the child counts as seen from here on
        simp only [hseen, hparent, if_false, ne_eq, not_true_eq_false, ih, List.nodup_cons,
          List.mem_cons, not_or]
        grind
      · simp [hseen, hparent]

/-- Nothing is found from a slot on just where every slot agrees with the other nodes and no
    child is listed twice or was seen before. -/
theorem violationFrom?_eq_none_iff {seen : List Nat} {slots : List LineageSlot} :
    l.violationFrom? i seen slots = none ↔
      (∀ p ∈ slots.zipIdx i, l.parentViolation? p.2 p.1.parent = none ∧
        ∀ j ∈ p.1.children, l.parent? j = some p.2) ∧
      (slots.flatMap (·.children)).Nodup ∧ ∀ j ∈ slots.flatMap (·.children), j ∉ seen := by
  induction slots generalizing i seen with
  | nil => simp [violationFrom?]
  | cons slot slots ih =>
    rw [violationFrom?, Option.or_eq_none_iff, Option.or_eq_none_iff, childViolation?_eq_none_iff,
      ih, List.zipIdx_cons, List.forall_mem_cons, List.flatMap_cons, List.nodup_append,
      List.forall_mem_append]
    -- the slots behind this one must not list its children again
    simp only [List.mem_append, not_or]
    grind

/-- The check finds nothing just where parents and children agree. -/
theorem violation?_eq_none_iff (l : Lineage) : l.violation? = none ↔ l.Consistent := by
  rw [violation?, violationFrom?_eq_none_iff]
  constructor
  · rintro ⟨h, -, -⟩
    have hnode : ∀ {i}, i < l.size → l.parentViolation? i (l.parent? i) = none ∧
        ∀ j ∈ l.children i, l.parent? j = some i := by
      intro i hi
      have hslot := List.getElem?_eq_getElem hi
      rw [parent?_of_getElem? hslot, children_of_getElem? hslot]
      exact h (l.slots[i], i) (List.mem_zipIdx_iff_getElem?.2 hslot)
    refine ⟨fun i hi => ?_, fun {i p} hp => ?_, fun {i j} hj => ?_⟩
    · exact (parentViolation?_eq_none_iff.1 (hnode hi).1).1
    · exact (parentViolation?_eq_none_iff.1 (hnode (lt_size_of_parent? hp)).1).2 p hp
    · exact (hnode (lt_size_of_mem_children hj)).2 j hj
  · intro h
    refine ⟨?_, h.nodup_children, fun j _ => List.not_mem_nil⟩
    rintro ⟨slot, i⟩ hmem
    have hslot : l.slots[i]? = some slot := List.mem_zipIdx_iff_getElem?.1 hmem
    have hi := (List.getElem?_eq_some_iff.1 hslot).1
    simp only [← parent?_of_getElem? hslot, ← children_of_getElem? hslot]
    exact ⟨parentViolation?_eq_none_iff.2 ⟨h.parent?_eq_none_iff i hi, fun p => h.count_children⟩,
      fun j => h.parent?_of_mem⟩

end Checking

/-! ## Trees -/

variable {root q c : Query} {a b : List Nat} {above : List (Nat × Query)} {i j k : Nat}

/-- In the lineage of a tree, parents and children agree. -/
theorem consistent_build (root : Query) : (build root).Consistent where
  parent?_eq_none_iff i hi := by
    obtain ⟨q, above, h⟩ := exists_path hi
    rw [h.parent?_eq]
    cases h with
    | root => simp
    | child h hj hc =>
      -- a child comes after its parent, so that it cannot be the first node
      have hle := le_of_mem_numbered (h.mem_numbered hj hc)
      simp only [List.head?_cons, Option.map_some, reduceCtorEq, false_iff]
      omega
  count_children {i p} hp := by
    obtain ⟨q, above, h⟩ := exists_path (lt_size_of_parent? hp)
    rw [h.parent?_eq] at hp
    cases h with
    | root => cases hp
    | child h hj hc =>
      cases hp
      rw [h.children_eq]
      exact List.count_eq_one_of_mem (nodup_numbered _ _)
        (List.mem_map_of_mem (h.mem_numbered hj hc))
  parent?_of_mem {i j} hj := by
    obtain ⟨q, above, h⟩ := exists_path (lt_size_of_mem_children hj)
    rw [h.children_eq] at hj
    obtain ⟨⟨j, c⟩, hmem, rfl⟩ := List.mem_map.1 hj
    rw [(h.of_mem_numbered hmem).parent?_eq, List.head?_cons, Option.map_some]

/-- There is a path down to a child, by its address. -/
theorem Path.concat (h : Path root (root.number a) q above) (ha : root.at? a = some q)
    (hc : q.children[k]? = some c) :
    Path root (root.number (a ++ [k])) c ((root.number a, q) :: above) := by
  rw [← map_snd_numbered (root.number a + 1) q.children, List.getElem?_map,
    Option.map_eq_some_iff] at hc
  obtain ⟨⟨j, c⟩, hk, rfl⟩ := hc
  rw [Query.number_concat ha hk]
  exact h.of_mem_numbered (List.mem_of_getElem? hk)

/-- There is a path down to the node at an address, with as many nodes above it as the address
    has places. -/
theorem exists_path_number (h : root.at? a = some q) :
    ∃ above, Path root (root.number a) q above ∧ above.length = a.length := by
  induction a using List.reverseRecOn generalizing q with
  | nil =>
    cases h
    rw [Query.number_nil]
    exact ⟨[], .root, rfl⟩
  | append_singleton a place ih =>
    obtain ⟨p, hp, hc⟩ := Query.at?_concat_eq_some_iff.1 h
    obtain ⟨above, hpath, hlength⟩ := ih hp
    refine ⟨_, hpath.concat hp hc, ?_⟩
    rw [List.length_cons, List.length_append, hlength, List.length_singleton]

/-- The numbers recorded for the children of a node are those of its children, in order. -/
theorem children_number (h : root.at? a = some q) :
    (build root).children (root.number a) =
      (List.range q.children.length).map fun k => root.number (a ++ [k]) := by
  obtain ⟨above, hpath, -⟩ := exists_path_number h
  rw [hpath.children_eq]
  have hlength : (numbered (root.number a + 1) q.children).length = q.children.length := by
    rw [← List.length_map, map_snd_numbered]
  refine List.ext_getElem (by simp [hlength]) fun k hk _ => ?_
  rw [List.length_map] at hk
  rw [List.getElem_map, List.getElem_map, List.getElem_range]
  exact (Query.number_concat h (List.getElem?_eq_getElem hk)).symm

theorem parent?_number_concat (h : root.at? (a ++ [k]) = some c) :
    (build root).parent? (root.number (a ++ [k])) = some (root.number a) := by
  obtain ⟨q, ha, hc⟩ := Query.at?_concat_eq_some_iff.1 h
  obtain ⟨above, hpath, -⟩ := exists_path_number ha
  rw [(hpath.concat ha hc).parent?_eq, List.head?_cons, Option.map_some]

theorem depth_number (h : root.at? a = some q) : (build root).depth (root.number a) = a.length := by
  obtain ⟨above, hpath, hlength⟩ := exists_path_number h
  rw [hpath.depth_eq, hlength]

/-! ## Subtrees -/

/-- Whether the recorded parents lead from one node up to another. -/
def LeadsUp (l : Lineage) : Nat → Nat → Prop :=
  Relation.ReflTransGen fun child parent => l.parent? child = some parent

/-- The recorded parents lead up to a node from those of its subtree. -/
theorem leadsUp_number_iff (h : root.at? a = some q) :
    (build root).LeadsUp j (root.number a) ↔
      ∃ b, (q.at? b).isSome ∧ root.number (a ++ b) = j := by
  constructor
  · intro hup
    induction hup using Relation.ReflTransGen.head_induction_on with
    | refl => exact ⟨[], rfl, by rw [List.append_nil]⟩
    | head hstep _ ih =>
      -- the parent is a node of the subtree, which lists the child
      obtain ⟨b, hb, rfl⟩ := ih
      obtain ⟨p, hp⟩ := Option.isSome_iff_exists.1 hb
      have hmem := (consistent_build root).mem_children hstep
      rw [children_number ((Query.at?_append_of_at? h b).trans hp)] at hmem
      obtain ⟨k, hk, rfl⟩ := List.mem_map.1 hmem
      have hchild : q.at? (b ++ [k]) = some _ := Query.at?_concat_eq_some_iff.2
        ⟨p, hp, List.getElem?_eq_getElem (List.mem_range.1 hk)⟩
      exact ⟨b ++ [k], by rw [hchild]; rfl, by rw [List.append_assoc]⟩
  · rintro ⟨b, hb, rfl⟩
    induction b using List.reverseRecOn with
    | nil =>
      rw [List.append_nil]
      exact .refl
    | append_singleton b k ih =>
      obtain ⟨c, hc⟩ := Option.isSome_iff_exists.1 hb
      obtain ⟨p, hp, -⟩ := Query.at?_concat_eq_some_iff.1 hc
      have hchild : root.at? (a ++ b ++ [k]) = some c := by
        rw [List.append_assoc, Query.at?_append_of_at? h, hc]
      rw [← List.append_assoc]
      exact .head (parent?_number_concat hchild) (ih (by rw [hp]; rfl))

/-! ## The lineage of a tree -/

/-- What a lineage is to say of the node `q` at the address `a` of a tree. -/
structure Depicts (l : Lineage) (root : Query) (a : List Nat) (q : Query) : Prop where
  /-- The numbers from that of `q` on, as many as `q` has nodes, are those of its subtree. -/
  subtree : ∀ j, (∃ b, (q.at? b).isSome ∧ root.number (a ++ b) = j) ↔
    root.number a ≤ j ∧ j < root.number a + q.nodeCount
  /-- They are those from which the recorded parents lead up to `q`. -/
  leadsUp : ∀ j, l.LeadsUp j (root.number a) ↔
    root.number a ≤ j ∧ j < root.number a + q.nodeCount
  /-- The children recorded are the children of `q` in order. -/
  children : l.children (root.number a) =
    (List.range q.children.length).map fun k => root.number (a ++ [k])
  /-- Each of them has `q` as its parent and stands one deeper. -/
  parent : ∀ j ∈ l.children (root.number a), l.parent? j = some (root.number a)
  depth : ∀ j ∈ l.children (root.number a), l.depth j = l.depth (root.number a) + 1
  /-- The depth is that of the address. -/
  level : l.depth (root.number a) = a.length

theorem depicts_of_at? (h : root.at? a = some q) : (build root).Depicts root a q where
  subtree _ := Query.exists_number_iff h
  leadsUp _ := (leadsUp_number_iff h).trans (Query.exists_number_iff h)
  children := children_number h
  parent _ hj := (consistent_build root).parent?_of_mem hj
  depth j hj := by
    rw [children_number h] at hj
    obtain ⟨k, hk, rfl⟩ := List.mem_map.1 hj
    have hchild := Query.at?_concat_eq_some_iff.2
      ⟨q, h, List.getElem?_eq_getElem (List.mem_range.1 hk)⟩
    rw [depth_number hchild, depth_number h, List.length_append, List.length_singleton]
  level := depth_number h

/-- The numbers of a lineage are those of the nodes. -/
theorem lt_size_iff : i < (build root).size ↔ ∃ a, (root.at? a).isSome ∧ root.number a = i := by
  have hroot := Query.exists_number_iff (root.at?_nil) (j := i)
  simpa [Query.number_nil, size_build] using hroot.symm

/-- A lineage has a slot for each node, in the order of their addresses, and passes the check.
    The first node alone has no parent, and of every node it is said where its subtree is and
    what its children are. -/
theorem depicts_build (root : Query) :
    (build root).size = root.nodeCount ∧ (build root).violation? = none ∧
      (∀ i < (build root).size, (build root).parent? i = none ↔ i = 0) ∧
      (∀ i, i < (build root).size ↔ ∃ a, (root.at? a).isSome ∧ root.number a = i) ∧
      (∀ a b, (root.at? a).isSome → (root.at? b).isSome →
        (root.number a < root.number b ↔ a < b)) ∧
      ∀ a q, root.at? a = some q → (build root).Depicts root a q := by
  have hconsistent := consistent_build root
  exact ⟨size_build root, (violation?_eq_none_iff _).2 hconsistent,
    hconsistent.parent?_eq_none_iff, fun _ => lt_size_iff, fun _ _ => Query.number_lt_iff,
    fun _ _ => depicts_of_at?⟩

end IndexQuery.Lineage

namespace IndexQuery

/-- `A == 'a' && !(B == 'b' || A == 'a')`, where one comparison stands in two places. -/
def twinQuery : Query :=
  .conj [.compareWith .eq "A" (.string "a"),
    .not (.group (.disj [.compareWith .eq "B" (.string "b"), .compareWith .eq "A" (.string "a")]))]

/-- The disjunction has the number 4 and the last two numbers beneath it. The later of the two
    equal comparisons has a number and a parent of its own. -/
theorem depicts_build_twinQuery :
    let l := Lineage.build twinQuery
    l.size = 7 ∧ l.violation? = none ∧ l.parent? 6 ≠ none ∧
      twinQuery.at? [0] = twinQuery.at? [1, 0, 0, 1] ∧
      twinQuery.number [0] < twinQuery.number [1, 0, 0, 1] ∧
      l.children 4 = [5, 6] ∧ (∀ j, l.LeadsUp j 4 ↔ 4 ≤ j ∧ j < 7) ∧
      l.parent? 6 = some 4 ∧ l.depth 6 = l.depth 4 + 1 := by
  intro l
  obtain ⟨hsize, hvalid, horphan, -, horder, hnodes⟩ := Lineage.depicts_build twinQuery
  have hor := hnodes [1, 0, 0] _ rfl
  have hnumber : twinQuery.number [1, 0, 0] = 4 := rfl
  have hchildren : l.children 4 = [5, 6] := hor.children
  have hlast : 6 ∈ l.children (twinQuery.number [1, 0, 0]) := by
    rw [hnumber, hchildren]
    decide
  have hsix : 6 < l.size := by
    rw [hsize]
    decide
  refine ⟨hsize, hvalid, fun hnone => absurd ((horphan 6 hsix).1 hnone) (by decide), rfl, ?_,
    hchildren, hor.leadsUp, hor.parent 6 hlast, hor.depth 6 hlast⟩
  exact (horder [0] [1, 0, 0, 1] rfl rfl).2 (by decide)

end IndexQuery
