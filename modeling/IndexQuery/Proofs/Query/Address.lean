import IndexQuery.Proofs.Query.Lineage
import Mathlib.Data.List.Induction
import Mathlib.Data.List.Nodup

/-! # Addresses of nodes

    An address names the children to go down to from the root of a tree, each by its place among
    its siblings. Unlike the subtrees, which may be equal, addresses tell the nodes apart.

    * `Query.at?`: the node at an address.
    * `Query.addresses`: the addresses of the nodes in pre-order.
    * `Query.mem_addresses`: these are the addresses of all nodes.
    * `Query.pairwise_addresses`: they are in ascending order.
    * `Query.number`: the number of the node at an address.
    * `Query.number_lt_iff`: numbers are in the order of the addresses.
    * `Query.prefix_addresses`: the addresses in a subtree begin at the number of its root.
-/

namespace IndexQuery.Query

/-! ## Going down -/

/-- The node at an address. -/
def at? (q : Query) : List Nat → Option Query
  | [] => some q
  | place :: rest => q.children[place]?.bind fun c => c.at? rest

@[simp] theorem at?_nil (q : Query) : q.at? [] = some q := rfl

@[simp] theorem at?_cons (q : Query) (place : Nat) (rest : List Nat) :
    q.at? (place :: rest) = q.children[place]?.bind fun c => c.at? rest := rfl

/-- Going down by one address and from there by another. -/
theorem at?_append (q : Query) (a b : List Nat) : q.at? (a ++ b) = (q.at? a).bind (·.at? b) := by
  induction a generalizing q with
  | nil => rfl
  | cons place rest ih =>
    rw [List.cons_append, at?_cons, at?_cons, Option.bind_assoc]
    exact congrArg _ (funext ih)

theorem at?_append_of_at? {q p : Query} {a : List Nat} (h : q.at? a = some p) (b : List Nat) :
    q.at? (a ++ b) = p.at? b := by
  rw [at?_append, h, Option.bind_some]

theorem isSome_at?_cons_iff {q : Query} {place : Nat} {rest : List Nat} :
    (q.at? (place :: rest)).isSome ↔ ∃ c, q.children[place]? = some c ∧ (c.at? rest).isSome := by
  cases h : q.children[place]? <;> simp [h]

theorem at?_concat_eq_some_iff {q c : Query} {a : List Nat} {place : Nat} :
    q.at? (a ++ [place]) = some c ↔ ∃ p, q.at? a = some p ∧ p.children[place]? = some c := by
  simp [at?_append, Option.bind_eq_some_iff]

/-! ## Listing -/

mutual

/-- The addresses of the nodes of a tree: the root, then what is below its children, one after
    the other. -/
def addresses : Query → List (List Nat)
  | .junction _ cs => [] :: addressesOfAll 0 cs
  | .not c | .group c | .marked _ _ c => [] :: c.addresses.map (0 :: ·)
  | .compare _ | .call _ => [[]]

/-- The addresses in sibling subtrees, the first of which has the given place. -/
def addressesOfAll (place : Nat) : List Query → List (List Nat)
  | [] => []
  | c :: cs => c.addresses.map (place :: ·) ++ addressesOfAll (place + 1) cs

end

theorem addresses_eq (q : Query) : q.addresses = [] :: addressesOfAll 0 q.children := by
  cases q <;> simp [addresses, addressesOfAll, children]

theorem mem_addressesOfAll {place : Nat} {cs : List Query} {a : List Nat} :
    a ∈ addressesOfAll place cs ↔
      ∃ k c, cs[k]? = some c ∧ ∃ b ∈ c.addresses, a = (place + k) :: b := by
  induction cs generalizing place with
  | nil => simp [addressesOfAll]
  | cons c cs ih =>
    rw [addressesOfAll, List.mem_append, List.mem_map, ih]
    constructor
    · rintro (⟨b, hb, rfl⟩ | ⟨k, d, hd, b, hb, rfl⟩)
      · exact ⟨0, c, rfl, b, hb, rfl⟩
      · exact ⟨k + 1, d, hd, b, hb, by rw [Nat.add_right_comm, Nat.add_assoc]⟩
    · rintro ⟨k, d, hd, b, hb, rfl⟩
      cases k with
      | zero =>
        cases hd
        exact .inl ⟨b, hb, rfl⟩
      | succ k => exact .inr ⟨k, d, hd, b, hb, by rw [Nat.add_right_comm, Nat.add_assoc]⟩

/-- The addresses listed are those of the nodes. -/
theorem mem_addresses {q : Query} {a : List Nat} : a ∈ q.addresses ↔ (q.at? a).isSome := by
  induction q using Query.induction_children generalizing a with
  | h q ih =>
    rw [addresses_eq, List.mem_cons, mem_addressesOfAll]
    cases a with
    | nil => simp
    | cons place rest =>
      rw [isSome_at?_cons_iff]
      constructor
      · rintro (heq | ⟨k, c, hc, b, hb, heq⟩)
        · cases heq
        · obtain ⟨rfl, rfl⟩ := List.cons.inj heq
          exact ⟨c, by rwa [Nat.zero_add], (ih c (List.mem_of_getElem? hc)).1 hb⟩
      · rintro ⟨c, hc, hrest⟩
        have hb := (ih c (List.mem_of_getElem? hc)).2 hrest
        exact .inr ⟨place, c, hc, rest, hb, by rw [Nat.zero_add]⟩

theorem pairwise_addressesOfAll {place : Nat} {cs : List Query}
    (h : ∀ c ∈ cs, c.addresses.Pairwise (· < ·)) : (addressesOfAll place cs).Pairwise (· < ·) := by
  induction cs generalizing place with
  | nil => exact List.Pairwise.nil
  | cons c cs ih =>
    rw [addressesOfAll, List.pairwise_append]
    refine ⟨?_, ih fun d hd => h d (List.mem_cons_of_mem _ hd), ?_⟩
    · rw [List.pairwise_map]
      exact (h c List.mem_cons_self).imp List.cons_lt_cons_self.2
    · -- the places of the later siblings are greater
      intro a ha b hb
      obtain ⟨a', -, rfl⟩ := List.mem_map.1 ha
      obtain ⟨k, d, -, b', -, rfl⟩ := mem_addressesOfAll.1 hb
      exact .rel (by omega)

/-- Pre-order is the lexicographic order of the addresses, in which an address comes before
    those that go on from it. -/
theorem pairwise_addresses (q : Query) : q.addresses.Pairwise (· < ·) := by
  induction q using Query.induction_children with
  | h q ih =>
    rw [addresses_eq, List.pairwise_cons]
    refine ⟨fun a ha => ?_, pairwise_addressesOfAll ih⟩
    obtain ⟨k, c, -, b, -, rfl⟩ := mem_addressesOfAll.1 ha
    exact .nil

theorem nodup_addresses (q : Query) : q.addresses.Nodup := by
  refine q.pairwise_addresses.imp ?_
  rintro a b hlt rfl
  exact List.lt_irrefl a hlt

mutual

/-- There is one address for each node. -/
theorem length_addresses : ∀ q : Query, q.addresses.length = q.nodeCount
  | .junction _ cs => by
    rw [addresses, nodeCount, List.length_cons, length_addressesOfAll, Nat.add_comm]
  | .not c | .group c | .marked _ _ c => by
    rw [addresses, nodeCount, List.length_cons, List.length_map, length_addresses c, Nat.add_comm]
  | .compare _ | .call _ => by
    rw [addresses, nodeCount, List.length_singleton]

theorem length_addressesOfAll {place : Nat} :
    ∀ cs : List Query, (addressesOfAll place cs).length = nodeCountAll cs
  | [] => rfl
  | c :: cs => by
    rw [addressesOfAll, nodeCountAll, List.length_append, List.length_map, length_addresses c,
      length_addressesOfAll cs]

end

/-! ## Numbers -/

/-- The number of the node at an address: how many nodes come before it. -/
def number (root : Query) (a : List Nat) : Nat := root.addresses.idxOf a

variable {root q : Query} {a b : List Nat} {i : Nat}

theorem number_eq_of_getElem? (h : root.addresses[i]? = some a) : root.number a = i := by
  obtain ⟨hlt, rfl⟩ := List.getElem?_eq_some_iff.1 h
  exact root.nodup_addresses.idxOf_getElem i hlt

theorem getElem?_number (h : (root.at? a).isSome) : root.addresses[root.number a]? = some a :=
  List.getElem?_idxOf (mem_addresses.2 h)

/-- The root comes first. -/
theorem number_nil (root : Query) : root.number [] = 0 :=
  number_eq_of_getElem? (by rw [addresses_eq]; rfl)

theorem number_inj (ha : (root.at? a).isSome) (hb : (root.at? b).isSome)
    (h : root.number a = root.number b) : a = b :=
  Option.some.inj ((getElem?_number ha).symm.trans (h ▸ getElem?_number hb))

theorem lt_of_number_lt (ha : (root.at? a).isSome) (hb : (root.at? b).isSome)
    (h : root.number a < root.number b) : a < b := by
  obtain ⟨hi, hai⟩ := List.getElem?_eq_some_iff.1 (getElem?_number ha)
  obtain ⟨hj, hbj⟩ := List.getElem?_eq_some_iff.1 (getElem?_number hb)
  rw [← hai, ← hbj]
  exact List.pairwise_iff_getElem.1 root.pairwise_addresses _ _ hi hj h

/-- The numbers are in the order of the addresses. -/
theorem number_lt_iff (ha : (root.at? a).isSome) (hb : (root.at? b).isSome) :
    root.number a < root.number b ↔ a < b := by
  refine ⟨lt_of_number_lt ha hb, fun hlt => ?_⟩
  rcases Nat.lt_trichotomy (root.number a) (root.number b) with h | h | h
  · exact h
  · cases number_inj ha hb h
    exact absurd hlt (List.lt_irrefl _)
  · exact absurd (lt_of_number_lt hb ha h) (List.lt_asymm hlt)

/-! ## Subtrees -/

/-- Where the addresses in siblings are listed in full, those in one of them begin at its
    number. -/
theorem prefix_addressesOfAll {f : List Nat → List Nat} {l : List (List Nat)}
    {place first k j : Nat} {cs : List Query} {c : Query}
    (h : (addressesOfAll place cs).map f <+: l.drop first)
    (hk : (Lineage.numbered first cs)[k]? = some (j, c)) :
    c.addresses.map (fun b => f ((place + k) :: b)) <+: l.drop j := by
  induction cs generalizing place first k with
  | nil => simp [Lineage.numbered] at hk
  | cons d cs ih =>
    rw [addressesOfAll, List.map_append, List.map_map] at h
    cases k with
    | zero =>
      cases hk
      exact (List.prefix_append _ _).trans h
    | succ k =>
      -- the addresses in the first sibling are passed over
      have hlen : (d.addresses.map (f ∘ (place :: ·))).length = d.nodeCount := by
        rw [List.length_map, length_addresses]
      rw [Nat.add_comm k 1, ← Nat.add_assoc]
      exact ih (Lineage.prefix_of_append h hlen) hk

/-- Where the addresses in a subtree begin at the number of its root, this holds of the children
    of the root as well. -/
theorem prefix_of_child {k j : Nat} {c : Query}
    (h : q.addresses.map (a ++ ·) <+: root.addresses.drop i)
    (hk : (Lineage.numbered (i + 1) q.children)[k]? = some (j, c)) :
    c.addresses.map (a ++ [k] ++ ·) <+: root.addresses.drop j := by
  rw [addresses_eq, List.map_cons] at h
  have hbelow := prefix_addressesOfAll (Lineage.prefix_of_cons h) hk
  simpa using hbelow

theorem number_eq_of_prefix_drop (h : q.addresses.map (a ++ ·) <+: root.addresses.drop i) :
    root.number a = i := by
  rw [addresses_eq, List.map_cons, List.append_nil] at h
  obtain ⟨rest, hrest⟩ := h
  apply number_eq_of_getElem?
  rw [← Nat.add_zero i, ← List.getElem?_drop, ← hrest]
  rfl

/-- The addresses in a subtree begin at the number of its root. -/
theorem prefix_addresses (h : root.at? a = some q) :
    q.addresses.map (a ++ ·) <+: root.addresses.drop (root.number a) := by
  induction a using List.reverseRecOn generalizing q with
  | nil =>
    cases h
    simp [number_nil]
  | append_singleton a place ih =>
    obtain ⟨p, hp, hc⟩ := at?_concat_eq_some_iff.1 h
    rw [← Lineage.map_snd_numbered (root.number a + 1) p.children, List.getElem?_map,
      Option.map_eq_some_iff] at hc
    obtain ⟨⟨j, c⟩, hk, rfl⟩ := hc
    have hprefix := prefix_of_child (ih hp) hk
    rwa [number_eq_of_prefix_drop hprefix]

/-- The children of a node have the numbers that follow it, each with room for the nodes of the
    siblings before it. -/
theorem number_concat {k j : Nat} {c : Query} (h : root.at? a = some q)
    (hk : (Lineage.numbered (root.number a + 1) q.children)[k]? = some (j, c)) :
    root.number (a ++ [k]) = j :=
  number_eq_of_prefix_drop (prefix_of_child (prefix_addresses h) hk)

theorem number_append {k : Nat} (h : root.at? a = some q) (hk : q.addresses[k]? = some b) :
    root.number (a ++ b) = root.number a + k := by
  obtain ⟨hlt, rfl⟩ := List.getElem?_eq_some_iff.1 hk
  have hget := List.prefix_iff_getElem?.1 (prefix_addresses h) k (by rwa [List.length_map])
  rw [List.getElem?_drop, List.getElem_map] at hget
  exact number_eq_of_getElem? hget

/-- The nodes of a subtree have as many numbers in a row as there are nodes. -/
theorem exists_number_iff {j : Nat} (h : root.at? a = some q) :
    (∃ b, (q.at? b).isSome ∧ root.number (a ++ b) = j) ↔
      root.number a ≤ j ∧ j < root.number a + q.nodeCount := by
  constructor
  · rintro ⟨b, hb, rfl⟩
    have hb := getElem?_number hb
    have hlt := (List.getElem?_eq_some_iff.1 hb).1
    rw [length_addresses] at hlt
    rw [number_append h hb]
    omega
  · rintro ⟨hle, hlt⟩
    have hk : j - root.number a < q.addresses.length := by
      rw [length_addresses]
      omega
    refine ⟨_, mem_addresses.1 (List.getElem_mem hk), ?_⟩
    rw [number_append h (List.getElem?_eq_getElem hk)]
    omega

end IndexQuery.Query
