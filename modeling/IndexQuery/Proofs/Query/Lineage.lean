import IndexQuery.Proofs.Query.Truth
import IndexQuery.Query.Lineage
import Mathlib.Data.List.Infix

/-! # Numbers of nodes

    A node is numbered before its children, and a subtree takes as many numbers as it has
    nodes. What is listed for a tree in this order is found by the number of the node.

    * `Lineage.numbered`: siblings with their numbers.
    * `Lineage.prefix_of_mem_numbered`: where the items of a sibling are.
    * `Lineage.slotsOf_eq`: what is recorded of a node, followed by what is recorded of its
      children.
    * `Lineage.Path`: a node with its number and all that is above it.
    * `Lineage.Path.prefix_slots`: the slots of a subtree begin at the number of its root.
    * `Lineage.Path.children_eq`, `Lineage.Path.parent?_eq`, `Lineage.Path.depth_eq`: what is
      recorded of a node.
    * `Lineage.exists_path`: every number is that of a node.
-/

namespace IndexQuery

/-- A property that passes from the children of a node to the node holds of every tree. -/
theorem Query.induction_children {motive : Query → Prop}
    (h : ∀ q : Query, (∀ c ∈ q.children, motive c) → motive q) (q : Query) : motive q := by
  induction q using Query.induction with
  | junction kind cs ih => exact h _ ih
  | not c ih | group c ih | marked m note c ih => exact h _ (by simpa [Query.children] using ih)
  | compare c | call c => exact h _ (by simp [Query.children])

theorem Query.nodeCount_eq (q : Query) : q.nodeCount = 1 + Query.nodeCountAll q.children := by
  cases q <;> simp [Query.nodeCount, Query.nodeCountAll, Query.children]

theorem Query.nodeCount_pos (q : Query) : 0 < q.nodeCount := by
  rw [Query.nodeCount_eq]
  omega

/-- What is listed for several trees, as many items for each as it has nodes. -/
theorem Query.length_flatMap {α : Type} {items : Query → List α} {cs : List Query}
    (h : ∀ c ∈ cs, (items c).length = c.nodeCount) :
    (cs.flatMap items).length = Query.nodeCountAll cs := by
  induction cs with
  | nil => rfl
  | cons c cs ih =>
    rw [List.flatMap_cons, List.length_append, h c List.mem_cons_self,
      ih fun d hd => h d (List.mem_cons_of_mem _ hd), Query.nodeCountAll]

namespace Lineage

/-! ## Siblings -/

/-- Siblings with their numbers, the first of which is given. -/
def numbered (first : Nat) : List Query → List (Nat × Query)
  | [] => []
  | c :: cs => (first, c) :: numbered (first + c.nodeCount) cs

theorem map_snd_numbered (first : Nat) (cs : List Query) :
    (numbered first cs).map (·.2) = cs := by
  induction cs generalizing first with
  | nil => rfl
  | cons c cs ih => rw [numbered, List.map_cons, ih]

theorem le_of_mem_numbered {first : Nat} {cs : List Query} {p : Nat × Query}
    (h : p ∈ numbered first cs) : first ≤ p.1 := by
  induction cs generalizing first with
  | nil => simp [numbered] at h
  | cons c cs ih =>
    rw [numbered] at h
    rcases List.mem_cons.1 h with rfl | h
    · exact Nat.le_refl first
    · exact Nat.le_of_add_right_le (ih h)

/-- Siblings have numbers of their own. -/
theorem nodup_numbered (first : Nat) (cs : List Query) : ((numbered first cs).map (·.1)).Nodup := by
  induction cs generalizing first with
  | nil => exact List.nodup_nil
  | cons c cs ih =>
    rw [numbered, List.map_cons, List.nodup_cons]
    refine ⟨fun hmem => ?_, ih _⟩
    obtain ⟨p, hp, hfirst⟩ := List.mem_map.1 hmem
    have hle := le_of_mem_numbered hp
    have hpos := c.nodeCount_pos
    omega

/-- What follows some items begins where they end. -/
theorem prefix_of_append {α : Type} {items rest l : List α} {i n : Nat}
    (h : items ++ rest <+: l.drop i) (hlen : items.length = n) : rest <+: l.drop (i + n) := by
  have hdrop := List.IsPrefix.drop h n
  rwa [List.drop_left' hlen, List.drop_drop] at hdrop

theorem prefix_of_cons {α : Type} {a : α} {items l : List α} {i : Nat}
    (h : a :: items <+: l.drop i) : items <+: l.drop (i + 1) := by
  rw [← List.singleton_append] at h
  exact prefix_of_append h rfl

/-- Where as many items are listed for each sibling as it has nodes, those of a sibling begin
    at its number. -/
theorem prefix_of_mem_numbered {α : Type} (items : Nat × Query → List α)
    (hlen : ∀ p, (items p).length = p.2.nodeCount) {l : List α} {first : Nat} {cs : List Query}
    (h : (numbered first cs).flatMap items <+: l.drop first) {p : Nat × Query}
    (hp : p ∈ numbered first cs) : items p <+: l.drop p.1 := by
  induction cs generalizing first with
  | nil => simp [numbered] at hp
  | cons c cs ih =>
    rw [numbered, List.flatMap_cons] at h
    rw [numbered] at hp
    rcases List.mem_cons.1 hp with rfl | hp
    · exact (List.prefix_append _ _).trans h
    · -- the items of the first sibling are passed over
      exact ih (prefix_of_append h (hlen _)) hp

/-- The numbers that siblings take up are those of their nodes. -/
theorem exists_mem_numbered {first j : Nat} {cs : List Query} (hle : first ≤ j)
    (hlt : j < first + Query.nodeCountAll cs) :
    ∃ p ∈ numbered first cs, p.1 ≤ j ∧ j < p.1 + p.2.nodeCount := by
  induction cs generalizing first with
  | nil =>
    rw [Query.nodeCountAll] at hlt
    omega
  | cons c cs ih =>
    rw [Query.nodeCountAll] at hlt
    rw [numbered]
    by_cases hfirst : j < first + c.nodeCount
    · exact ⟨(first, c), List.mem_cons_self, hle, hfirst⟩
    · obtain ⟨p, hp, hrange⟩ := @ih (first + c.nodeCount) (by omega) (by omega)
      exact ⟨p, List.mem_cons_of_mem _ hp, hrange⟩

/-! ## Slots -/

mutual

/-- A subtree has as many slots as nodes. -/
theorem length_slotsOf (parent : Option Nat) (depth id : Nat) :
    ∀ q : Query, (slotsOf parent depth id q).length = q.nodeCount
  | .junction _ cs => by
    rw [slotsOf, Query.nodeCount, List.length_cons, length_slotsOfAll, Nat.add_comm]
  | .not c | .group c | .marked _ _ c => by
    rw [slotsOf, Query.nodeCount, List.length_cons, length_slotsOf, Nat.add_comm]
  | .compare _ | .call _ => by
    rw [slotsOf, Query.nodeCount, List.length_singleton]

theorem length_slotsOfAll (parent depth id : Nat) :
    ∀ cs : List Query, (slotsOfAll parent depth id cs).2.length = Query.nodeCountAll cs
  | [] => rfl
  | c :: cs => by
    rw [slotsOfAll, Query.nodeCountAll, List.length_append, length_slotsOf, length_slotsOfAll]

end

theorem slotsOfAll_eq (parent depth id : Nat) (cs : List Query) :
    slotsOfAll parent depth id cs =
      ((numbered id cs).map (·.1),
        (numbered id cs).flatMap fun p => slotsOf (some parent) depth p.1 p.2) := by
  induction cs generalizing id with
  | nil => rfl
  | cons c cs ih => simp [slotsOfAll, numbered, length_slotsOf, ih]

/-- The slot of a node is followed by those of its subtrees. -/
theorem slotsOf_eq (parent : Option Nat) (depth id : Nat) (q : Query) :
    slotsOf parent depth id q =
      ⟨parent, (numbered (id + 1) q.children).map (·.1), depth⟩ ::
        (numbered (id + 1) q.children).flatMap fun p =>
          slotsOf (some id) (depth + 1) p.1 p.2 := by
  cases q <;> simp [slotsOf, slotsOfAll_eq, Query.children, numbered]

/-- A lineage has as many slots as the tree has nodes. -/
theorem size_build (root : Query) : (build root).size = root.nodeCount :=
  length_slotsOf none 0 0 root

/-! ## Paths -/

/-- A node with its number, below the nodes on the way from the root, the nearest first. A
    child has the number that is recorded for it. -/
inductive Path (root : Query) : Nat → Query → List (Nat × Query) → Prop where
  | root : Path root 0 root []
  | child {i j k : Nat} {q c : Query} {above : List (Nat × Query)} :
    Path root i q above → ((build root).children i)[k]? = some j → q.children[k]? = some c →
      Path root j c ((i, q) :: above)

namespace Path

variable {root q c : Query} {i j k : Nat} {above : List (Nat × Query)}

theorem getElem?_of_slots {parent : Option Nat} {depth : Nat}
    (h : slotsOf parent depth i q <+: (build root).slots.drop i) :
    (build root).slots[i]? =
      some ⟨parent, (numbered (i + 1) q.children).map (·.1), depth⟩ := by
  rw [slotsOf_eq] at h
  obtain ⟨rest, hrest⟩ := h
  rw [← Nat.add_zero i, ← List.getElem?_drop, ← hrest]
  rfl

theorem mem_numbered_of_children_eq
    (h : (build root).children i = (numbered (i + 1) q.children).map (·.1))
    (hj : ((build root).children i)[k]? = some j) (hc : q.children[k]? = some c) :
    (j, c) ∈ numbered (i + 1) q.children := by
  rw [h, List.getElem?_map, Option.map_eq_some_iff] at hj
  obtain ⟨p, hp, rfl⟩ := hj
  rw [← map_snd_numbered (i + 1) q.children, List.getElem?_map, hp] at hc
  cases hc
  exact List.mem_of_getElem? hp

/-- The slots of a node and of what is below it begin at its number. Its parent is the nearest
    node above it, and its depth is the number of nodes above it. -/
theorem prefix_slots (h : Path root i q above) :
    slotsOf (above.head?.map (·.1)) above.length i q <+: (build root).slots.drop i := by
  induction h with
  | root => exact List.prefix_rfl
  | @child i j k q c above _ hj hc ih =>
    have hchildren : (build root).children i = (numbered (i + 1) q.children).map (·.1) := by
      rw [Lineage.children, getElem?_of_slots ih]
      rfl
    have hmem := mem_numbered_of_children_eq hchildren hj hc
    rw [slotsOf_eq] at ih
    exact prefix_of_mem_numbered (fun p => slotsOf (some i) (above.length + 1) p.1 p.2)
      (fun p => length_slotsOf _ _ _ _) (prefix_of_cons ih) hmem

/-- The slot of a node. -/
theorem getElem?_slots (h : Path root i q above) :
    (build root).slots[i]? =
      some ⟨above.head?.map (·.1), (numbered (i + 1) q.children).map (·.1), above.length⟩ :=
  getElem?_of_slots h.prefix_slots

/-- The numbers recorded for the children of a node are theirs. -/
theorem children_eq (h : Path root i q above) :
    (build root).children i = (numbered (i + 1) q.children).map (·.1) := by
  rw [Lineage.children, h.getElem?_slots]
  rfl

/-- The parent recorded for a node is the nearest node above it. -/
theorem parent?_eq (h : Path root i q above) :
    (build root).parent? i = above.head?.map (·.1) := by
  rw [Lineage.parent?, h.getElem?_slots]
  rfl

/-- The depth recorded for a node is the number of nodes above it. -/
theorem depth_eq (h : Path root i q above) : (build root).depth i = above.length := by
  rw [Lineage.depth, h.getElem?_slots]
  rfl

/-- A step down goes to a child with its number. -/
theorem mem_numbered (h : Path root i q above) (hj : ((build root).children i)[k]? = some j)
    (hc : q.children[k]? = some c) : (j, c) ∈ numbered (i + 1) q.children :=
  mem_numbered_of_children_eq h.children_eq hj hc

/-- There is a step down to every child. -/
theorem of_mem_numbered (h : Path root i q above) (hmem : (j, c) ∈ numbered (i + 1) q.children) :
    Path root j c ((i, q) :: above) := by
  obtain ⟨k, hk⟩ := List.mem_iff_getElem?.1 hmem
  refine .child (k := k) h ?_ ?_
  · rw [h.children_eq, List.getElem?_map, hk]
    rfl
  · rw [← map_snd_numbered (i + 1) q.children, List.getElem?_map, hk]
    rfl

/-- The numbers from that of a node on are those of the nodes below it. -/
theorem exists_of_lt (h : Path root i q above) (hle : i ≤ j) (hlt : j < i + q.nodeCount) :
    ∃ p above', Path root j p above' := by
  induction q using Query.induction_children generalizing i above with
  | h q ih =>
    by_cases heq : i = j
    · exact ⟨q, above, heq ▸ h⟩
    · rw [Query.nodeCount_eq] at hlt
      have hfrom : i + 1 ≤ j := by omega
      have hto : j < i + 1 + Query.nodeCountAll q.children := by omega
      obtain ⟨⟨first, c⟩, hmem, hfirst, hlast⟩ := exists_mem_numbered hfrom hto
      have hc : c ∈ q.children := by
        rw [← map_snd_numbered (i + 1) q.children]
        exact List.mem_map_of_mem hmem
      exact ih c hc (h.of_mem_numbered hmem) hfirst hlast

end Path

/-- Every number is that of a node. -/
theorem exists_path {root : Query} {i : Nat} (h : i < (build root).size) :
    ∃ q above, Path root i q above := by
  rw [size_build] at h
  exact Path.root.exists_of_lt (Nat.zero_le i) (by omega)

end Lineage

end IndexQuery
