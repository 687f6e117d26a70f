import IndexQuery.Composite.Term
import IndexQuery.Proofs.Text.Order

/-! # The order of joined values

    Joined values compare place by place as long as the places have one width, and
    values without the separator are read back from their join.

    * `Mapping.accepts_joinValues_of_le`, `Mapping.accepts_joinValues_of_ge`: a bound
      on the first value and a bound on the others make a bound on the join.
    * `Mapping.joinValues_inj`: joins of values without the separator are different.
-/

namespace IndexQuery

/-! ## Bounds on values -/

/-- Whether a value satisfies a comparison with a literal. Values compare character
    by character. Patterns are not decided here. -/
def CompareOp.accepts (op : CompareOp) (value literal : String) : Bool :=
  match op with
  | .eq => value == literal
  | .ne => value != literal
  | .lt => decide (value < literal)
  | .le => decide (value ≤ literal)
  | .gt => decide (literal < value)
  | .ge => decide (literal ≤ value)
  | .regex | .notRegex => false

section

variable {value literal : String}

@[simp] theorem CompareOp.accepts_eq : CompareOp.eq.accepts value literal = true ↔ value = literal :=
  beq_iff_eq

@[simp] theorem CompareOp.accepts_lt : CompareOp.lt.accepts value literal = true ↔ value < literal :=
  decide_eq_true_iff

@[simp] theorem CompareOp.accepts_le : CompareOp.le.accepts value literal = true ↔ value ≤ literal :=
  decide_eq_true_iff

@[simp] theorem CompareOp.accepts_gt : CompareOp.gt.accepts value literal = true ↔ literal < value :=
  decide_eq_true_iff

@[simp] theorem CompareOp.accepts_ge : CompareOp.ge.accepts value literal = true ↔ literal ≤ value :=
  decide_eq_true_iff

end

/-- Whether a value satisfies a bound. -/
def ValueBound.admits (b : ValueBound) (value : String) : Bool := b.op.accepts value b.value

@[simp] theorem ValueBound.admits_mk (op : CompareOp) (literal value : String) :
    ValueBound.admits ⟨op, literal⟩ value = op.accepts value literal := rfl

/-- Whether a value satisfies the bounds on a component. -/
def ComponentBound.admits (b : ComponentBound) (value : String) : Bool :=
  b.lower.all (·.admits value) && b.upper.all (·.admits value)

/-! ## The order of joined values -/

namespace Mapping

variable (m : Mapping)

@[simp] theorem joinValues_nil : m.joinValues [] = "" := by
  rw [joinValues, String.intercalate_nil]

@[simp] theorem joinValues_singleton (v : String) : m.joinValues [v] = v := by
  rw [joinValues, String.intercalate_singleton]

theorem joinValues_cons (v : String) {vs : List String} (h : vs ≠ []) :
    m.joinValues (v :: vs) = v ++ (String.singleton m.separator ++ m.joinValues vs) := by
  rw [joinValues, String.intercalate_cons_of_ne_nil h, String.append_assoc, ← joinValues]

/-- Joined values begin with the first one. -/
theorem exists_joinValues_cons (v : String) (vs : List String) :
    ∃ t, m.joinValues (v :: vs) = v ++ t := by
  cases vs with
  | nil => exact ⟨"", by simp⟩
  | cons w ws => exact ⟨_, m.joinValues_cons v (by simp)⟩

theorem le_joinValues_cons (v : String) (vs : List String) : v ≤ m.joinValues (v :: vs) := by
  obtain ⟨t, ht⟩ := m.exists_joinValues_cons v vs
  rw [ht]
  exact Text.le_of_prefix (by rw [String.toList_append]; exact List.prefix_append _ _)

/-- Where the first values have one width and differ, they decide. -/
theorem joinValues_lt_of_lt {v x : String} (hlen : v.length = x.length) (hlt : v < x)
    (vs xs : List String) : m.joinValues (v :: vs) < m.joinValues (x :: xs) := by
  obtain ⟨s, hs⟩ := m.exists_joinValues_cons v vs
  obtain ⟨t, ht⟩ := m.exists_joinValues_cons x xs
  rw [hs, ht, String.lt_iff, String.toList_append, String.toList_append]
  rw [← String.length_toList, ← String.length_toList] at hlen
  exact Text.append_lt_append_of_lt hlen hlt _ _

/-- A value that is smaller than a literal stays so with others joined to it, unless the
    literal goes on behind it with a character that is not greater than the separator. -/
theorem joinValues_cons_lt {v literal : String} (hlt : v < literal)
    (hwithin : ∀ c rest, literal.toList = v.toList ++ c :: rest → m.separator < c)
    (vs : List String) : m.joinValues (v :: vs) < literal := by
  by_cases hvs : vs = []
  · rwa [hvs, joinValues_singleton]
  · rw [m.joinValues_cons v hvs, String.lt_iff, String.toList_append, String.toList_append,
      String.toList_singleton]
    rcases Text.eq_append_or_append_lt (String.lt_iff.1 hlt) with ⟨c, rest, hliteral⟩ | hdecided
    · rw [hliteral, Text.append_lt_append_left_iff]
      exact .rel (hwithin c rest hliteral)
    · simpa using hdecided ([m.separator] ++ (m.joinValues vs).toList) []

/-- Where the first values agree, the others decide. -/
theorem joinValues_cons_lt_iff (v : String) {vs xs : List String} (hvs : vs ≠ []) (hxs : xs ≠ []) :
    m.joinValues (v :: vs) < m.joinValues (v :: xs) ↔ m.joinValues vs < m.joinValues xs := by
  rw [m.joinValues_cons v hvs, m.joinValues_cons v hxs]
  simp only [String.lt_iff, String.toList_append, Text.append_lt_append_left_iff]

/-- Values without the separator are read back from their join. -/
theorem joinValues_inj {vs xs : List String} (hvs : vs ≠ []) (hxs : xs ≠ [])
    (hv : ∀ v ∈ vs, m.separator ∉ v.toList) (hx : ∀ x ∈ xs, m.separator ∉ x.toList)
    (h : m.joinValues vs = m.joinValues xs) : vs = xs := by
  have split : ∀ ws : List String, ws ≠ [] → (∀ w ∈ ws, m.separator ∉ w.toList) →
      (m.joinValues ws).toList.splitOn m.separator = ws.map String.toList := by
    intro ws hws hw
    rw [joinValues, String.toList_intercalate, String.toList_singleton]
    exact List.splitOn_intercalate m.separator (by simpa using hw) (by simpa using hws)
  have htexts : vs.map String.toList = xs.map String.toList := by
    rw [← split vs hvs hv, ← split xs hxs hx, h]
  exact (List.map_inj_right fun _ _ => String.toList_inj.1).1 htexts

/-- A lower bound on joined values, place by place. -/
theorem accepts_joinValues_of_le {op : CompareOp} (hop : op.isLowerBound = true) {v x : String}
    {vs xs : List String} (hle : x ≤ v) (hlen : x.length = v.length) (hvs : vs ≠ [])
    (hxs : xs ≠ []) (h : op.accepts (m.joinValues vs) (m.joinValues xs) = true) :
    op.accepts (m.joinValues (v :: vs)) (m.joinValues (x :: xs)) = true := by
  by_cases heq : x = v
  · subst heq
    cases op with
    | gt => simpa [m.joinValues_cons_lt_iff x hxs hvs] using h
    | ge =>
      simpa [← String.not_lt, m.joinValues_cons_lt_iff x hvs hxs] using h
    | eq | ne | lt | le | regex | notRegex => simp [CompareOp.isLowerBound] at hop
  · have hlt := m.joinValues_lt_of_lt hlen (Std.lt_of_le_of_ne hle heq) xs vs
    cases op with
    | gt => simpa using hlt
    | ge => simpa using Std.le_of_lt hlt
    | eq | ne | lt | le | regex | notRegex => simp [CompareOp.isLowerBound] at hop

/-- An upper bound on joined values, place by place. -/
theorem accepts_joinValues_of_ge {op : CompareOp} (hop : op.isUpperBound = true) {v x : String}
    {vs xs : List String} (hle : v ≤ x) (hlen : x.length = v.length) (hvs : vs ≠ [])
    (hxs : xs ≠ []) (h : op.accepts (m.joinValues vs) (m.joinValues xs) = true) :
    op.accepts (m.joinValues (v :: vs)) (m.joinValues (x :: xs)) = true := by
  by_cases heq : v = x
  · subst heq
    cases op with
    | lt => simpa [m.joinValues_cons_lt_iff v hvs hxs] using h
    | le =>
      simpa [← String.not_lt, m.joinValues_cons_lt_iff v hxs hvs] using h
    | eq | ne | gt | ge | regex | notRegex => simp [CompareOp.isUpperBound] at hop
  · have hlt := m.joinValues_lt_of_lt hlen.symm (Std.lt_of_le_of_ne hle heq) vs xs
    cases op with
    | lt => simpa using hlt
    | le => simpa using Std.le_of_lt hlt
    | eq | ne | gt | ge | regex | notRegex => simp [CompareOp.isUpperBound] at hop

end Mapping

end IndexQuery
