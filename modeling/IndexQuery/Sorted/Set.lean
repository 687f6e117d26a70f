/-! # Sorted sets

    A finite set is the list of its elements in strictly ascending order, so two
    sets with the same elements are the same list.

    * `mem_insert`: inserting adds one element and nothing else.
    * `ext_mem`: sets with the same elements are equal.
-/

namespace IndexQuery

/-- A finite set of elements of an ordered type. -/
structure SortedSet (α : Type u) [Ord α] where
  toList : List α
  ascending : toList.Pairwise (compare · · = .lt)
deriving DecidableEq

namespace SortedSet

variable {α : Type u} [Ord α]

instance : EmptyCollection (SortedSet α) := ⟨⟨[], .nil⟩⟩

instance : Inhabited (SortedSet α) := ⟨∅⟩

instance : Membership α (SortedSet α) := ⟨fun s a => a ∈ s.toList⟩

theorem mem_def {s : SortedSet α} {a : α} : a ∈ s ↔ a ∈ s.toList := Iff.rfl

/-- Whether an element belongs to the set. -/
def contains [BEq α] (s : SortedSet α) (a : α) : Bool := s.toList.contains a

instance [DecidableEq α] (a : α) (s : SortedSet α) : Decidable (a ∈ s) :=
  inferInstanceAs (Decidable (a ∈ s.toList))

@[simp] theorem contains_iff [BEq α] [LawfulBEq α] {s : SortedSet α} {a : α} :
    s.contains a = true ↔ a ∈ s := by
  simp [contains, mem_def]

/-- The number of elements. -/
def size (s : SortedSet α) : Nat := s.toList.length

/-- Whether the set has no element. -/
def isEmpty (s : SortedSet α) : Bool := s.toList.isEmpty

/-- The elements that satisfy a test. -/
def filter (s : SortedSet α) (p : α → Bool) : SortedSet α :=
  ⟨s.toList.filter p, s.ascending.filter p⟩

@[simp] theorem mem_filter {s : SortedSet α} {p : α → Bool} {a : α} :
    a ∈ s.filter p ↔ a ∈ s ∧ p a = true := List.mem_filter

/-! ## Insertion -/

/-- Places `a` before the first larger element, in the stead of an equal one. -/
def insertInto (a : α) : List α → List α
  | [] => [a]
  | b :: rest =>
    match compare a b with
    | .lt => a :: b :: rest
    | .eq => a :: rest
    | .gt => b :: insertInto a rest

theorem mem_insertInto_imp {a x : α} {l : List α} (h : x ∈ insertInto a l) : x = a ∨ x ∈ l := by
  induction l with
  | nil => simpa [insertInto] using h
  | cons b rest ih =>
    unfold insertInto at h
    split at h
    · simpa using h
    · rcases List.mem_cons.1 h with h | h
      · exact .inl h
      · exact .inr (List.mem_cons_of_mem _ h)
    · rcases List.mem_cons.1 h with h | h
      · exact .inr (h ▸ List.mem_cons_self)
      · exact (ih h).imp_right (List.mem_cons_of_mem _)

theorem pairwise_insertInto [Std.TransOrd α] {a : α} {l : List α}
    (h : l.Pairwise (compare · · = .lt)) : (insertInto a l).Pairwise (compare · · = .lt) := by
  induction l with
  | nil => simp [insertInto]
  | cons b rest ih =>
    obtain ⟨hb, hrest⟩ := List.pairwise_cons.1 h
    unfold insertInto
    split
    · rename_i hlt
      refine List.pairwise_cons.2 ⟨fun x hx => ?_, h⟩
      rcases List.mem_cons.1 hx with rfl | hx
      · exact hlt
      · exact Std.TransCmp.lt_trans hlt (hb x hx)
    · rename_i heq
      exact List.pairwise_cons.2 ⟨fun x hx => Std.TransCmp.lt_of_eq_of_lt heq (hb x hx), hrest⟩
    · rename_i hgt
      refine List.pairwise_cons.2 ⟨fun x hx => ?_, ih hrest⟩
      rcases mem_insertInto_imp hx with rfl | hx
      · exact Std.OrientedCmp.gt_iff_lt.1 hgt
      · exact hb x hx

theorem mem_insertInto [Std.LawfulEqOrd α] {a x : α} {l : List α} :
    x ∈ insertInto a l ↔ x = a ∨ x ∈ l := by
  refine ⟨mem_insertInto_imp, fun h => ?_⟩
  induction l with
  | nil => simpa [insertInto] using h
  | cons b rest ih =>
    unfold insertInto
    split
    · simpa using h
    · rename_i heq
      have : a = b := Std.LawfulEqCmp.eq_of_compare heq
      subst this
      simpa using h
    · simp only [List.mem_cons] at h ⊢
      rcases h with h | h | h
      · exact .inr (ih (.inl h))
      · exact .inl h
      · exact .inr (ih (.inr h))

@[simp] theorem not_mem_empty {x : α} : x ∉ (∅ : SortedSet α) := List.not_mem_nil

variable [Std.TransOrd α]

/-- The set with one more element. -/
def insert (s : SortedSet α) (a : α) : SortedSet α :=
  ⟨insertInto a s.toList, pairwise_insertInto s.ascending⟩

/-- The set of the elements of a list. -/
def ofList (l : List α) : SortedSet α := l.foldl insert ∅

/-- The elements of either set. -/
def union (s t : SortedSet α) : SortedSet α := t.toList.foldl insert s

/-- The set with one element. -/
def singleton (a : α) : SortedSet α := insert ∅ a

/-! ## Elements -/

@[simp] theorem mem_insert [Std.LawfulEqOrd α] {s : SortedSet α} {a x : α} :
    x ∈ s.insert a ↔ x = a ∨ x ∈ s := mem_insertInto

theorem mem_foldl_insert [Std.LawfulEqOrd α] {l : List α} {s : SortedSet α} {x : α} :
    x ∈ l.foldl insert s ↔ x ∈ s ∨ x ∈ l := by
  induction l generalizing s with
  | nil => simp
  | cons b rest ih => simp [ih, or_assoc, or_comm, or_left_comm]

@[simp] theorem mem_union [Std.LawfulEqOrd α] {s t : SortedSet α} {x : α} :
    x ∈ s.union t ↔ x ∈ s ∨ x ∈ t := mem_foldl_insert

@[simp] theorem mem_ofList [Std.LawfulEqOrd α] {l : List α} {x : α} : x ∈ ofList l ↔ x ∈ l := by
  simp [ofList, mem_foldl_insert]

/-- Sets with the same elements are equal. -/
theorem ext_mem {s t : SortedSet α} (h : ∀ x, x ∈ s ↔ x ∈ t) : s = t := by
  obtain ⟨l, hl⟩ := s
  obtain ⟨m, hm⟩ := t
  simp only [mem_def] at h
  -- ascending lists with the same members have the same head, and go on alike
  have irrefl : ∀ x y : α, compare x y = .lt → x ≠ y := by
    rintro x _ hxy rfl
    simp [Std.compare_self] at hxy
  congr
  induction l generalizing m with
  | nil =>
    cases m with
    | nil => rfl
    | cons b _ => exact absurd ((h b).2 List.mem_cons_self) List.not_mem_nil
  | cons a l ih =>
    cases m with
    | nil => exact absurd ((h a).1 List.mem_cons_self) List.not_mem_nil
    | cons b m =>
      obtain ⟨ha, hl'⟩ := List.pairwise_cons.1 hl
      obtain ⟨hb, hm'⟩ := List.pairwise_cons.1 hm
      have hab : a = b := by
        rcases List.mem_cons.1 ((h a).1 List.mem_cons_self) with hab | hab
        · exact hab
        · rcases List.mem_cons.1 ((h b).2 List.mem_cons_self) with hba | hba
          · exact hba.symm
          · have := Std.TransCmp.lt_trans (ha b hba) (hb a hab)
            exact absurd rfl (irrefl a a this)
      subst hab
      rw [ih hl' m hm' fun x => ⟨fun hx => ?_, fun hx => ?_⟩]
      · rcases List.mem_cons.1 ((h x).1 (List.mem_cons_of_mem _ hx)) with hxa | hx'
        · exact absurd hxa.symm (irrefl a x (ha x hx))
        · exact hx'
      · rcases List.mem_cons.1 ((h x).2 (List.mem_cons_of_mem _ hx)) with hxa | hx'
        · exact absurd hxa.symm (irrefl a x (hb x hx))
        · exact hx'

/-- A set is the set of its elements. -/
theorem ofList_toList [Std.LawfulEqOrd α] (s : SortedSet α) : ofList s.toList = s :=
  ext_mem fun x => by rw [mem_ofList, mem_def]

end SortedSet

end IndexQuery
