import IndexQuery.Sorted.Set

/-! # Sorted maps

    A finite map is the list of its entries in strictly ascending order of their
    keys, so two maps that answer every look-up alike are the same list.

    * `lookup_eq_some_iff_mem`: of entries with different keys each one is found.
    * `get?_put`: a written key holds what was written, all others keep theirs.
    * `ofList_entries`: a map is the map of its entries.
-/

namespace IndexQuery

/-! ## Association lists -/

section

variable {κ : Type u} {α : Type v} [BEq κ] [LawfulBEq κ] {l : List (κ × α)} {k : κ} {a : α}

/-- What is found is an entry. -/
theorem mem_of_lookup_eq_some (h : l.lookup k = some a) : (k, a) ∈ l := by
  obtain ⟨front, back, rfl, -⟩ := List.lookup_eq_some_iff.1 h
  simp

/-- Where no key is repeated, every entry is found. -/
theorem lookup_eq_some_iff_mem (h : (l.map (·.1)).Nodup) : l.lookup k = some a ↔ (k, a) ∈ l := by
  refine ⟨mem_of_lookup_eq_some, ?_⟩
  intro hmem
  obtain ⟨front, back, rfl⟩ := List.append_of_mem hmem
  refine List.lookup_eq_some_iff.2 ⟨front, back, rfl, ?_⟩
  intro p hp
  rw [List.map_append, List.nodup_append] at h
  rw [bne_iff_ne]
  exact fun hkey => h.2.2 p.1 (List.mem_map_of_mem hp) k (by simp) hkey.symm

end

/-- A finite map from an ordered type of keys. -/
structure SortedMap (κ : Type u) (α : Type v) [Ord κ] where
  entries : List (κ × α)
  ascending : (entries.map (·.1)).Pairwise (compare · · = .lt)
deriving DecidableEq

namespace SortedMap

variable {κ : Type u} {α : Type v} [Ord κ]

omit [Ord κ] in
/-- There are no keys to compare in an empty list. -/
theorem pairwise_nil {r : κ → κ → Prop} : (([] : List (κ × α)).map (·.1)).Pairwise r := .nil

instance : EmptyCollection (SortedMap κ α) := ⟨⟨[], pairwise_nil⟩⟩

instance : Inhabited (SortedMap κ α) := ⟨∅⟩

/-- The keys in ascending order. -/
def keys (m : SortedMap κ α) : List κ := m.entries.map (·.1)

/-- The set of the keys. -/
def keySet (m : SortedMap κ α) : SortedSet κ := ⟨m.keys, m.ascending⟩

/-- The values in the order of their keys. -/
def values (m : SortedMap κ α) : List α := m.entries.map (·.2)

/-- The number of entries. -/
def size (m : SortedMap κ α) : Nat := m.entries.length

/-- Whether the map has no entry. -/
def isEmpty (m : SortedMap κ α) : Bool := m.entries.isEmpty

/-- The value of a key. -/
def get? [BEq κ] (m : SortedMap κ α) (k : κ) : Option α := m.entries.lookup k

/-- Whether the map has an entry for the key. -/
def contains [BEq κ] (m : SortedMap κ α) (k : κ) : Bool := (m.get? k).isSome

/-- The entries that satisfy a test. -/
def filter (m : SortedMap κ α) (p : κ → α → Bool) : SortedMap κ α :=
  ⟨m.entries.filter fun (k, a) => p k a, m.ascending.sublist (List.filter_sublist.map _)⟩

/-! ## Writing -/

/-- Places an entry before the first one of a larger key, in the stead of one
    of an equal key. -/
def putInto (k : κ) (a : α) : List (κ × α) → List (κ × α)
  | [] => [(k, a)]
  | (k', a') :: rest =>
    match compare k k' with
    | .lt => (k, a) :: (k', a') :: rest
    | .eq => (k, a) :: rest
    | .gt => (k', a') :: putInto k a rest

theorem keys_putInto (k : κ) (a : α) (l : List (κ × α)) :
    (putInto k a l).map (·.1) = SortedSet.insertInto k (l.map (·.1)) := by
  induction l with
  | nil => rfl
  | cons e rest ih =>
    simp only [putInto, List.map_cons, SortedSet.insertInto]
    split <;> simp_all

variable [Std.TransOrd κ]

/-- The map with the value of one key replaced. -/
def put (m : SortedMap κ α) (k : κ) (a : α) : SortedMap κ α :=
  ⟨putInto k a m.entries, by
    rw [keys_putInto]
    exact SortedSet.pairwise_insertInto m.ascending⟩

/-- The map with the given entries, of which later ones win. -/
def ofList (l : List (κ × α)) : SortedMap κ α := l.foldl (fun m (k, a) => m.put k a) ∅

/-! ## Look-ups -/

omit [Std.TransOrd κ] in
theorem lookup_putInto [BEq κ] [LawfulBEq κ] [Std.LawfulEqOrd κ] {k x : κ} {a : α}
    {l : List (κ × α)} :
    (putInto k a l).lookup x = if x == k then some a else l.lookup x := by
  induction l with
  | nil => simp only [putInto, List.lookup_cons]; split <;> simp_all
  | cons e rest ih =>
    obtain ⟨k', a'⟩ := e
    unfold putInto
    split
    · simp only [List.lookup_cons]; split <;> simp_all
    · rename_i heq
      have : k = k' := Std.LawfulEqCmp.eq_of_compare heq
      subst this
      simp only [List.lookup_cons]
      split <;> simp_all
    · rename_i hgt
      have hne : k ≠ k' := by
        rintro rfl
        simp [Std.compare_self] at hgt
      simp only [List.lookup_cons, ih]
      by_cases hx : x = k
      · subst hx
        have hne : (x == k') = false := by simpa using hne
        simp [hne]
      · simp [hx]

/-- A written key holds what was written, and all others keep theirs. -/
theorem get?_put [BEq κ] [LawfulBEq κ] [Std.LawfulEqOrd κ] {m : SortedMap κ α} {k x : κ} {a : α} :
    (m.put k a).get? x = if x == k then some a else m.get? x := lookup_putInto

/-- The entries of a map are what is looked up. -/
theorem get?_eq_some_iff [BEq κ] [LawfulBEq κ] {m : SortedMap κ α} {k : κ} {a : α} :
    m.get? k = some a ↔ (k, a) ∈ m.entries := by
  apply lookup_eq_some_iff_mem
  -- the keys ascend, and so none of them is repeated
  refine m.ascending.imp fun hlt hsame => ?_
  rw [hsame, Std.compare_self] at hlt
  cases hlt

omit [Std.TransOrd κ] in
@[simp] theorem get?_empty [BEq κ] {x : κ} : (∅ : SortedMap κ α).get? x = none := rfl

/-! ## Entries -/

omit [Std.TransOrd κ] in
/-- Maps with the same entries are equal. -/
theorem ext_entries {m n : SortedMap κ α} (h : m.entries = n.entries) : m = n := by
  cases m
  cases n
  congr

omit [Std.TransOrd κ] in
theorem putInto_append [Std.OrientedOrd κ] {k : κ} {a : α} {l : List (κ × α)}
    (h : ∀ e ∈ l, compare e.1 k = .lt) : putInto k a l = l ++ [(k, a)] := by
  induction l with
  | nil => rfl
  | cons e l ih =>
    obtain ⟨he, hl⟩ := List.forall_mem_cons.1 h
    have hgt : compare k e.1 = .gt := Std.OrientedCmp.gt_iff_lt.2 he
    simp [putInto, hgt, ih hl]

/-- Entries in ascending order are written behind each other. -/
theorem entries_foldl_put {m : SortedMap κ α} {l : List (κ × α)}
    (h : ((m.entries ++ l).map (·.1)).Pairwise (compare · · = .lt)) :
    (l.foldl (fun m (k, a) => m.put k a) m).entries = m.entries ++ l := by
  induction l generalizing m with
  | nil => simp
  | cons e l ih =>
    have hput : (m.put e.1 e.2).entries = m.entries ++ [e] := by
      refine putInto_append fun e' he' => ?_
      rw [List.map_append, List.pairwise_append] at h
      exact h.2.2 _ (List.mem_map_of_mem he') _ List.mem_cons_self
    rw [List.foldl_cons, ih (by simpa [hput] using h), hput, List.append_assoc, List.singleton_append]

/-- A map is the map of its entries. -/
theorem ofList_entries (m : SortedMap κ α) : ofList m.entries = m :=
  ext_entries (entries_foldl_put (m := ∅) m.ascending)

end SortedMap

end IndexQuery
