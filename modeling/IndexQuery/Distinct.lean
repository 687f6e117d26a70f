import Std.Data.HashSet

/-! # Lists without repetitions

    `distinct` keeps the first of equal items, like `List.eraseDups`, and looks up
    in a table what it has kept.

    * `distinct_eq_eraseDups`: both give the same list.
    * `nodup_distinct`: no item is repeated.
-/

namespace IndexQuery

variable {α : Type u} [BEq α] [Hashable α]

/-- The items that are not in `seen`, each of them once. -/
def distinctBeside (seen : Std.HashSet α) : List α → List α
  | [] => []
  | a :: rest =>
    if seen.contains a then distinctBeside seen rest
    else a :: distinctBeside (seen.insert a) rest

/-- The items, each of them once, in the order of first mention. -/
def distinct (items : List α) : List α := distinctBeside ∅ items

variable [LawfulBEq α]

theorem distinctBeside_eq (seen : Std.HashSet α) (items : List α) :
    distinctBeside seen items = (items.filter fun a => !seen.contains a).eraseDups := by
  induction items generalizing seen with
  | nil => rfl
  | cons a rest ih =>
    unfold distinctBeside
    by_cases h : seen.contains a = true
    · simp [h, ih]
    · have comm : ∀ b, (a == b) = (b == a) := fun b => BEq.comm
      simp [h, ih, List.eraseDups_cons, List.filter_filter, comm]

/-- The items are those that remain when repetitions are erased. -/
theorem distinct_eq_eraseDups (items : List α) : distinct items = items.eraseDups := by
  rw [distinct, distinctBeside_eq, List.filter_eq_self.2 (by simp)]

/-- Every item is kept. -/
@[simp] theorem mem_distinct {items : List α} {a : α} : a ∈ distinct items ↔ a ∈ items := by
  simp [distinct_eq_eraseDups]

omit [BEq α] [Hashable α] [LawfulBEq α] in
/-- A list without repetitions that holds one item alone is that item. -/
theorem eq_singleton_of_nodup {items : List α} {a : α} (hnodup : items.Nodup) (ha : a ∈ items)
    (halone : ∀ b ∈ items, b = a) : items = [a] := by
  have hreplicate := List.eq_replicate_of_mem halone
  have hpos := List.length_pos_of_mem ha
  rw [hreplicate, List.nodup_replicate] at hnodup
  have hlength : items.length = 1 := by omega
  rw [hreplicate, hlength]
  rfl

/-- A list without repetitions stays. -/
theorem distinct_of_nodup {items : List α}
    (h : items.Nodup) : distinct items = items := by
  rw [distinct_eq_eraseDups]
  induction items with
  | nil => rfl
  | cons a items ih =>
    obtain ⟨ha, hitems⟩ := List.nodup_cons.1 h
    have hrest : items.filter (fun b => !b == a) = items := by
      rw [List.filter_eq_self]
      intro b hb
      have hne : b ≠ a := by
        rintro rfl
        exact ha hb
      simpa using hne
    rw [List.eraseDups_cons, hrest, ih hitems]

/-- No item is repeated. -/
theorem nodup_distinct (items : List α) :
    (distinct items).Nodup := by
  rw [distinct_eq_eraseDups]
  induction hlength : items.length using Nat.strongRecOn generalizing items with
  | ind n ih =>
    cases items with
    | nil => exact List.nodup_nil
    | cons a items =>
      rw [List.eraseDups_cons, List.nodup_cons]
      have hshort := List.length_filter_le (fun b => !b == a) items
      simp only [List.length_cons] at hlength
      refine ⟨?_, ih _ (by omega) _ rfl⟩
      simp [List.mem_eraseDups]

end IndexQuery
