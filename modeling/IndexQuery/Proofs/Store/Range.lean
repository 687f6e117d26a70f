import IndexQuery.Store.Source

/-! # What a range of keys holds

    A range is a stretch of the order of keys: what lies between two of its keys belongs
    to it.

    * `KeyRange.isAfterStart_of_lt`, `KeyRange.isBeforeEnd_of_lt`: either end cuts the
      order in two.
    * `KeyRange.contains_qualifiers`: a range of qualifiers holds the keys of one row and
      one family whose qualifiers lie between its ends, whatever their visibility and
      their timestamp.
-/

namespace IndexQuery

/-! ## Keys in front of a cell -/

theorem Text.compare_eq_lt {a b : String} : compare a b = .lt ↔ a < b :=
  compareOfLessAndEq_eq_lt

/-- A key comes before all versions of a cell when its row, its family or its qualifier
    comes before that of the cell. -/
theorem Key.compare_firstOf_eq_lt {key : Key} {row family qualifier : String} :
    compare key (firstOf row family qualifier) = .lt ↔
      key.row < row ∨ key.row = row ∧
        (key.family < family ∨ key.family = family ∧ key.qualifier < qualifier) := by
  -- no visibility comes before the empty one, and no timestamp is newer than the last
  have hvisibility : ¬ key.visibility < "" := List.not_lt_nil _
  have htimestamp : ¬ newerFirst key (firstOf row family qualifier) = .lt := by
    show ¬ compare Int64.maxValue key.timestamp = .lt
    rw [Std.compare_eq_lt, Int64.not_lt]
    exact Int64.le_maxValue _
  unfold firstOf at htimestamp ⊢
  show order key _ = .lt ↔ _
  simp only [order, compareLex, compareOn, Ordering.then_eq_lt, Std.LawfulEqOrd.compare_eq_iff_eq,
    Text.compare_eq_lt, hvisibility, htimestamp, and_false, or_false]

/-! ## Keys in a range -/

namespace KeyRange

variable {range : KeyRange} {a b : Key}

/-- What comes behind a key behind the start is behind the start. -/
theorem isAfterStart_of_lt (hab : compare a b = .lt) (ha : range.isAfterStart a = true) :
    range.isAfterStart b = true := by
  have hba : compare b a = .gt := Std.OrientedCmp.gt_of_lt hab
  have hb : compare b range.start = .gt := by
    unfold isAfterStart at ha
    cases hstart : compare a range.start with
    | lt => simp [hstart] at ha
    | eq => rwa [← Std.LawfulEqCmp.eq_of_compare hstart]
    | gt => exact Std.TransCmp.gt_trans hba hstart
  simp [isAfterStart, hb]

/-- What comes before a key before the end is before the end. -/
theorem isBeforeEnd_of_lt (hab : compare a b = .lt) (hb : range.isBeforeEnd b = true) :
    range.isBeforeEnd a = true := by
  have ha : compare a range.finish = .lt := by
    unfold isBeforeEnd at hb
    cases hfinish : compare b range.finish with
    | lt => exact Std.TransCmp.lt_trans hab hfinish
    | eq => rwa [← Std.LawfulEqCmp.eq_of_compare hfinish]
    | gt => simp [hfinish] at hb
  simp [isBeforeEnd, ha]

/-- A range of qualifiers holds all versions of the cells of a row and a family whose
    qualifiers lie between its ends. -/
theorem contains_qualifiers {row family lower upper : String} {key : Key} :
    (qualifiers row family lower upper).contains key = true ↔
      key.row = row ∧ key.family = family ∧ lower ≤ key.qualifier ∧ key.qualifier < upper := by
  have hstart : (qualifiers row family lower upper).isAfterStart key = true ↔
      ¬ compare key (.firstOf row family lower) = .lt := by
    unfold isAfterStart qualifiers
    cases compare key (.firstOf row family lower) <;> simp
  have hend : (qualifiers row family lower upper).isBeforeEnd key = true ↔
      compare key (.firstOf row family upper) = .lt := by
    unfold isBeforeEnd qualifiers
    cases compare key (.firstOf row family upper) <;> simp
  rw [contains, Bool.and_eq_true, hstart, hend, Key.compare_firstOf_eq_lt,
    Key.compare_firstOf_eq_lt, ← String.not_lt (a := key.qualifier)]
  constructor
  · rintro ⟨hafter, hrow | ⟨hrow, hfamily | ⟨hfamily, hqualifier⟩⟩⟩
    · exact absurd (.inl hrow) hafter
    · exact absurd (.inr ⟨hrow, .inl hfamily⟩) hafter
    · exact ⟨hrow, hfamily, fun hlower => hafter (.inr ⟨hrow, .inr ⟨hfamily, hlower⟩⟩), hqualifier⟩
  · rintro ⟨rfl, rfl, hlower, hupper⟩
    refine ⟨?_, .inr ⟨rfl, .inr ⟨rfl, hupper⟩⟩⟩
    rintro (hrow | ⟨-, hfamily | ⟨-, hqualifier⟩⟩)
    · exact String.lt_irrefl _ hrow
    · exact String.lt_irrefl _ hfamily
    · exact hlower hqualifier

end KeyRange

end IndexQuery
