import IndexQuery.Expansion.Clause
import IndexQuery.Proofs.Query.Truth

/-! # Clauses and the forms they get

    * `Clause.of?_eq_some`: a clause is a comparison or a range.
    * `Clause.forms_of_variants?`: what the forms of a clause are.
    * `Clause.truth_withValues`: where normalizers do not change what is true, a form
      is as true as its clause.
-/

namespace IndexQuery

namespace Clause

/-! ## Clauses of queries -/

/-- A clause is read off a comparison with text, or off a range. -/
theorem of?_eq_some {q : Query} {clause : Clause} (h : of? q = some clause) :
    (∃ c, q = .compare c ∧ c.literal.isNull = false ∧ clause = .leaf c) ∨
      ∃ b, q.bounds? = some b ∧ clause = .range b := by
  unfold of? at h
  split at h
  · rename_i c
    split at h
    · cases h
    · rename_i hnull
      cases h
      exact .inl ⟨c, rfl, by simpa using hnull, rfl⟩
  · obtain ⟨b, hb, rfl⟩ := Option.map_eq_some_iff.1 h
    exact .inr ⟨b, hb, rfl⟩

/-- The comparisons of a clause have text, and those of a range make a range. -/
def WellFormed : Clause → Prop
  | .leaf c => c.literal.isNull = false
  | .range b => b.WellFormed

theorem wellFormed_of? {q : Query} {clause : Clause} (h : of? q = some clause) :
    clause.WellFormed := by
  obtain ⟨c, -, hnull, rfl⟩ | ⟨b, hb, rfl⟩ := of?_eq_some h
  · exact hnull
  · exact Query.wellFormed_of_bounds? hb

/-- A query is as true as its clause. -/
theorem truth_toQuery (v : Valuation) {q : Query} {clause : Clause} (h : of? q = some clause) :
    v.truth clause.toQuery = v.truth q := by
  obtain ⟨c, rfl, -, rfl⟩ | ⟨b, hb, rfl⟩ := of?_eq_some h
  · rfl
  · rw [v.truth_of_bounds? hb, toQuery, Query.range, Query.mark,
      v.truth_marked (by decide) (by decide)]
    simp

/-- The field is part of what clauses have in common. -/
theorem fst_key (clause : Clause) : clause.key.1 = clause.field := by
  cases clause <;> rfl

theorem field_of_key {clause other : Clause} (h : clause.key = other.key) :
    clause.field = other.field := by
  rw [← fst_key, h, fst_key]

/-! ## Forms -/

theorem mem_addNew {items : List (List String)} {item x : List String} :
    x ∈ addNew items item ↔ x ∈ items ∨ x = item := by
  unfold addNew
  by_cases h : item ∈ items
  · rw [if_pos (by simpa using h)]
    constructor
    · exact .inl
    · rintro (hx | rfl)
      · exact hx
      · exact h
  · rw [if_neg (by simpa using h)]
    simp

theorem nodup_addNew {items : List (List String)} (item : List String) (h : items.Nodup) :
    (addNew items item).Nodup := by
  unfold addNew
  -- the item is either there already, or new and put at the end
  by_cases hmem : item ∈ items
  · rwa [if_pos (by simpa using hmem)]
  · rw [if_neg (by simpa using hmem), List.nodup_append]
    refine ⟨h, by simp, ?_⟩
    intro x hx y hy
    rw [List.mem_singleton.1 hy]
    rintro rfl
    exact hmem hx

theorem mem_foldl_addNew {x : List String} (added items : List (List String)) :
    x ∈ added.foldl addNew items ↔ x ∈ items ∨ x ∈ added := by
  induction added generalizing items with
  | nil => simp
  | cons item added ih => rw [List.foldl_cons, ih, mem_addNew, List.mem_cons, or_assoc]

theorem nodup_foldl_addNew (added items : List (List String)) (h : items.Nodup) :
    (added.foldl addNew items).Nodup := by
  induction added generalizing items with
  | nil => exact h
  | cons item added ih => exact ih _ (nodup_addNew item h)

/-- The values of a clause that normalizers give it, without those as written. -/
def normalizedForms (normalizers : List Normalizer) (clause : Clause) : List (List String) :=
  match clause with
  | .leaf _ => ((normalizers.map (normalized? · clause)).filterMap id).foldl addNew []
  | .range _ =>
    ((normalizers.map (normalized? · clause)).map fun r => r.getD clause.values).foldl addNew []

/-- A normalizer changes the text of a comparison, as a pattern where it is one. -/
theorem normalized?_leaf {n : Normalizer} {c : Comparison} {values : List String} :
    (leaf c).normalized? n = some values ↔
      ∃ w, (if c.op.isRegex then n.normalizeRegex c.literal.text else n.normalize c.literal.text)
        = .ok w ∧ values = [w] := by
  have hvalue : (leaf c).normalized? n = (if c.op.isRegex then n.normalizeRegex c.literal.text
      else n.normalize c.literal.text).toOption.map fun v => [v] := by
    rw [normalized?, normalization]
    split <;> rfl
  rw [hvalue]
  cases if c.op.isRegex then n.normalizeRegex c.literal.text else n.normalize c.literal.text with
  | error e => simp [Except.toOption]
  | ok w => simp [Except.toOption, eq_comm]

/-- A normalizer changes both texts of a range. -/
theorem normalized?_range {n : Normalizer} {b : Bounds} {values : List String} :
    (range b).normalized? n = some values ↔
      ∃ lo hi, n.normalize b.lower.literal.text = .ok lo ∧
        n.normalize b.upper.literal.text = .ok hi ∧ values = [lo, hi] := by
  have hvalue : (range b).normalized? n = do
      return [← (n.normalize b.lower.literal.text).toOption,
        ← (n.normalize b.upper.literal.text).toOption] := rfl
  rw [hvalue]
  cases n.normalize b.lower.literal.text with
  | error e => simp [Except.toOption]
  | ok lo =>
    cases n.normalize b.upper.literal.text with
    | error e => simp [Except.toOption]
    | ok hi => simp [Except.toOption, eq_comm]

/-- Whether the clause asks for a pattern. -/
def isPattern : Clause → Bool
  | .leaf c => c.op.isRegex
  | .range _ => false

theorem variants?_eq (normalizers : List Normalizer) (clause : Clause) :
    clause.variants? normalizers =
      if (normalizers.map (normalized? · clause)).all Option.isNone then none
      else
        let forms := clause.normalizedForms normalizers
        some (if clause.isPattern || 1 < forms.length then addNew forms clause.values
          else forms) := by
  cases clause <;> rfl

/-- A clause without forms is one that every normalizer refuses. -/
theorem variants?_eq_none {normalizers : List Normalizer} {clause : Clause} :
    clause.variants? normalizers = none ↔ ∀ n ∈ normalizers, clause.normalized? n = none := by
  rw [variants?_eq]
  split
  · rename_i h
    simpa using h
  · rename_i h
    simpa using h

/-- The normalized forms are what the normalizers make of the clause and, for a range
    that one of them refuses, the range as written. -/
theorem mem_normalizedForms {normalizers : List Normalizer} {clause : Clause}
    {values : List String} :
    values ∈ clause.normalizedForms normalizers ↔
      (∃ n ∈ normalizers, clause.normalized? n = some values) ∨
        ∃ b n, clause = .range b ∧ n ∈ normalizers ∧ clause.normalized? n = none ∧
          values = clause.values := by
  cases clause with
  | leaf c => simp [normalizedForms, mem_foldl_addNew]
  | range b =>
    simp only [normalizedForms, mem_foldl_addNew, List.not_mem_nil, false_or, List.mem_map]
    constructor
    · rintro ⟨-, ⟨n, hn, rfl⟩, rfl⟩
      cases hvalues : (Clause.range b).normalized? n with
      | none => exact .inr ⟨b, n, rfl, hn, hvalues, rfl⟩
      | some values => exact .inl ⟨n, hn, hvalues⟩
    · rintro (⟨n, hn, hvalues⟩ | ⟨-, n, -, hn, hvalues, rfl⟩)
      · exact ⟨_, ⟨n, hn, rfl⟩, by rw [hvalues]; rfl⟩
      · exact ⟨_, ⟨n, hn, rfl⟩, by rw [hvalues]; rfl⟩

theorem nodup_normalizedForms (normalizers : List Normalizer) (clause : Clause) :
    (clause.normalizedForms normalizers).Nodup := by
  cases clause with
  | leaf c => exact nodup_foldl_addNew _ [] List.nodup_nil
  | range b => exact nodup_foldl_addNew _ [] List.nodup_nil

/-- What the forms of a clause are: at least one, each of them once, what its normalizers
    make of it and, beside others, the clause as written. -/
structure Forms (normalizers : List Normalizer) (clause : Clause) (forms : List (List String)) :
    Prop where
  nodup : forms.Nodup
  accepted : ∃ n ∈ normalizers, ∃ values, clause.normalized? n = some values
  sound : ∀ values ∈ forms,
    values = clause.values ∨ ∃ n ∈ normalizers, clause.normalized? n = some values
  complete : ∀ n ∈ normalizers, ∀ values, clause.normalized? n = some values → values ∈ forms
  written : 1 < forms.length → clause.values ∈ forms
  pattern : clause.isPattern = true → clause.values ∈ forms
  refused : ∀ b, clause = .range b → ∀ n ∈ normalizers, clause.normalized? n = none →
    clause.values ∈ forms

theorem forms_of_variants? {normalizers : List Normalizer} {clause : Clause}
    {forms : List (List String)} (h : clause.variants? normalizers = some forms) :
    clause.Forms normalizers forms := by
  rw [variants?_eq] at h
  split at h
  · cases h
  rename_i hsome
  simp only [Option.some.injEq] at h
  -- adding the clause as written takes none of the normalized forms away
  have hmem : ∀ values, values ∈ clause.normalizedForms normalizers → values ∈ forms := by
    intro values hvalues
    rw [← h]
    split
    · exact mem_addNew.2 (.inl hvalues)
    · exact hvalues
  constructor
  case nodup =>
    rw [← h]
    split
    · exact nodup_addNew _ (nodup_normalizedForms normalizers clause)
    · exact nodup_normalizedForms normalizers clause
  case accepted =>
    simp only [List.all_map, List.all_eq_true, Function.comp_apply, Option.isNone_iff_eq_none,
      Classical.not_forall] at hsome
    obtain ⟨n, hn, haccepted⟩ := hsome
    exact ⟨n, hn, Option.ne_none_iff_exists'.1 haccepted⟩
  case sound =>
    -- what is not normalized was added as written
    intro values hvalues
    have hvalues : values ∈ clause.normalizedForms normalizers ∨ values = clause.values := by
      rw [← h] at hvalues
      split at hvalues
      · exact mem_addNew.1 hvalues
      · exact .inl hvalues
    rcases hvalues with hvalues | rfl
    · rcases mem_normalizedForms.1 hvalues with hmade | ⟨-, -, -, -, -, rfl⟩
      · exact .inr hmade
      · exact .inl rfl
    · exact .inl rfl
  case complete =>
    intro n hn values hvalues
    exact hmem values (mem_normalizedForms.2 (.inl ⟨n, hn, hvalues⟩))
  case written =>
    -- there is only one form if the clause as written was not added
    intro hlength
    rw [← h] at hlength ⊢
    split
    · exact mem_addNew.2 (.inr rfl)
    · rename_i hsingle
      rw [if_neg hsingle] at hlength
      simp [hlength] at hsingle
  case pattern =>
    intro hpattern
    rw [← h, if_pos (by simp [hpattern])]
    exact mem_addNew.2 (.inr rfl)
  case refused =>
    -- a range stands for itself with a normalizer that refuses it
    intro b hb n hn hrefused
    exact hmem _ (mem_normalizedForms.2 (.inr ⟨b, n, hb, hn, hrefused, rfl⟩))

theorem Forms.ne_nil {normalizers : List Normalizer} {clause : Clause} {forms : List (List String)}
    (h : clause.Forms normalizers forms) : forms ≠ [] := by
  obtain ⟨n, hn, values, hvalues⟩ := h.accepted
  exact List.ne_nil_of_mem (h.complete n hn values hvalues)

/-! ## Other values -/

variable {values : List String}

/-- A normalizer keeps the number of values. -/
theorem length_of_normalized? {n : Normalizer} {clause : Clause}
    (h : clause.normalized? n = some values) : values.length = clause.values.length := by
  cases clause with
  | leaf c =>
    obtain ⟨w, -, rfl⟩ := normalized?_leaf.1 h
    rfl
  | range b =>
    obtain ⟨lo, hi, -, -, rfl⟩ := normalized?_range.1 h
    rfl

theorem Forms.length {normalizers : List Normalizer} {clause : Clause} {forms : List (List String)}
    (h : clause.Forms normalizers forms) (hvalues : values ∈ forms) :
    values.length = clause.values.length := by
  rcases h.sound values hvalues with rfl | ⟨n, -, hn⟩
  · rfl
  · exact length_of_normalized? hn

/-- What remains when a clause gets other values, of which there are as many. -/
theorem withValues_eq (clause : Clause) (h : values.length = clause.values.length) :
    (∃ c w, clause = .leaf c ∧ values = [w] ∧ clause.withValues values = .leaf (c.withValue w)) ∨
      ∃ b lo hi, clause = .range b ∧ values = [lo, hi] ∧
        clause.withValues values = .range ⟨b.lower.withValue lo, b.upper.withValue hi⟩ := by
  cases clause with
  | leaf c =>
    obtain ⟨w, rfl⟩ := List.length_eq_one_iff.1 h
    exact .inl ⟨c, w, rfl, rfl, rfl⟩
  | range b =>
    rcases values with - | ⟨lo, - | ⟨hi, - | ⟨third, rest⟩⟩⟩
    case cons.cons.nil => exact .inr ⟨b, lo, hi, rfl, rfl, rfl⟩
    all_goals simp [Clause.values] at h

@[simp] theorem key_withValues (clause : Clause) : (clause.withValues values).key = clause.key := by
  fun_cases withValues values clause <;> rfl

@[simp] theorem field_withValues (clause : Clause) :
    (clause.withValues values).field = clause.field := by
  fun_cases withValues values clause <;> rfl

@[simp] theorem junction_withValues (clause : Clause) :
    (clause.withValues values).junction = clause.junction := by
  fun_cases withValues values clause <;> rfl

theorem values_withValues {clause : Clause} (h : values.length = clause.values.length) :
    (clause.withValues values).values = values := by
  obtain ⟨c, w, rfl, rfl, -⟩ | ⟨b, lo, hi, rfl, rfl, -⟩ := clause.withValues_eq h <;> rfl

theorem wellFormed_withValues {clause : Clause} (hwf : clause.WellFormed)
    (h : values.length = clause.values.length) : (clause.withValues values).WellFormed := by
  obtain ⟨c, w, rfl, rfl, -⟩ | ⟨b, lo, hi, rfl, rfl, -⟩ := clause.withValues_eq h
  · exact rfl
  · exact ⟨hwf.field, hwf.lower, hwf.upper, rfl, rfl⟩

/-- Two clauses with something in common are two comparisons or two ranges. -/
theorem cases_of_key {clause other : Clause} (h : clause.key = other.key) :
    (∃ c d, clause = .leaf c ∧ other = .leaf d ∧ c.field = d.field ∧ c.op = d.op) ∨
      ∃ b d, clause = .range b ∧ other = .range d ∧ b.lower.field = d.lower.field ∧
        b.lower.op = d.lower.op ∧ b.upper.op = d.upper.op := by
  -- the operators of the key tell a comparison from a range by their number
  cases clause with
  | leaf c =>
    cases other with
    | leaf d =>
      simp only [key, Prod.mk.injEq, List.cons.injEq, and_true] at h
      exact .inl ⟨c, d, rfl, rfl, h⟩
    | range d => simp [key] at h
  | range b =>
    cases other with
    | leaf d => simp [key] at h
    | range d =>
      simp only [key, Bounds.field, Prod.mk.injEq, List.cons.injEq, and_true] at h
      exact .inr ⟨b, d, rfl, rfl, h⟩

/-- A clause with other values is determined by these and by what it has in common with
    the clause. -/
theorem withValues_congr {clause other : Clause} (hwf : clause.WellFormed)
    (hother : other.WellFormed) (hkey : clause.key = other.key)
    (h : values.length = clause.values.length) :
    clause.withValues values = other.withValues values := by
  obtain ⟨c, d, rfl, rfl, hfield, hop⟩ | ⟨b, d, rfl, rfl, hfield, hlower, hupper⟩ :=
    cases_of_key hkey
  · obtain ⟨w, rfl⟩ := List.length_eq_one_iff.1 h
    simp [withValues, Comparison.withValue, hfield, hop]
  · -- the key only has the field of the lower bound, which is that of the upper one
    have hfields : b.upper.field = d.upper.field := by
      rw [hwf.field, hother.field, hfield]
    obtain ⟨_, _, hleaf, -⟩ | ⟨_, lo, hi, _, rfl, -⟩ := (range b).withValues_eq h
    · cases hleaf
    · simp [withValues, Comparison.withValue, hfield, hlower, hupper, hfields]

end Clause

end IndexQuery
