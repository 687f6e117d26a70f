import IndexQuery.Proofs.Composite.Fold
import IndexQuery.Proofs.Composite.Range

/-! # Bounds on overloaded fields

    An overloaded composite field holds the plain values of its first component beside the
    joined ones, which begin with them. A bound on such a field that stands alone is widened
    to find both.

    * `ComponentBound.widened`: what becomes of the bounds on the field.
    * `Folder.truth_widen`: a widened query asks for just these.
    * `ValueBound.admits_upperStepped`: a bound from above that was stepped finds what begins
      with a value. One that cannot be stepped does not, if the value is its literal.
    * `Query.truth_fold_of_isOverloaded`: the joined values are found unless the bound ends
      in the value and the value is the last one of its width.
-/

namespace IndexQuery

/-! ## Texts that go on -/

namespace Text

/-- Where texts of one length differ, the smaller one may go on. -/
theorem append_lt_of_lt {v w : String} (hlen : v.length = w.length) (hlt : v < w)
    (rest : String) : v ++ rest < w := by
  rw [← String.length_toList, ← String.length_toList] at hlen
  rw [String.lt_iff, String.toList_append]
  simpa using append_lt_append_of_lt hlen (String.lt_iff.1 hlt) rest.toList []

theorem le_append (v rest : String) : v ≤ v ++ rest :=
  le_of_prefix (by rw [String.toList_append]; exact List.prefix_append _ _)

theorem append_eq_self_iff {v rest : String} : v ++ rest = v ↔ rest = "" := by
  rw [← String.toList_inj, String.toList_append, List.append_right_eq_self, String.toList_eq_nil_iff]

theorem append_le_self_iff {v rest : String} : v ++ rest ≤ v ↔ rest = "" := by
  constructor
  · intro h
    exact append_eq_self_iff.1 (Std.le_antisymm h (le_append v rest))
  · intro h
    calc v ++ rest = v := append_eq_self_iff.2 h
      _ ≤ v := String.le_refl v

end Text

/-! ## Widened bounds -/

namespace ValueBound

variable {a : Alphabet} {b : ValueBound} {v : String}

/-- A bound moved past the joined values of its literal, if there is a next value. -/
def stepped (a : Alphabet) (b : ValueBound) : ValueBound :=
  match b.op with
  | .gt => (a.increment b.value).elim b fun next => ⟨.ge, next⟩
  | .le => (a.increment b.value).elim b fun next => ⟨.lt, next⟩
  | _ => b

/-- A bound from below that leaves the joined values of its literal to one side. An equality
    takes them in. -/
def lowerStepped (a : Alphabet) (b : ValueBound) : ValueBound :=
  if b.op = .eq then ⟨.ge, b.value⟩ else b.stepped a

/-- A bound from above that takes in the joined values of its literal if the literal itself
    satisfies it, and if there is a next value. -/
def upperStepped (a : Alphabet) (b : ValueBound) : ValueBound :=
  if b.op = .eq then (a.increment b.value).elim b fun next => ⟨.lt, next⟩ else b.stepped a

/-- A bound from above ends in a value when the value is the greatest that satisfies it.
    Here there is no next value to step to. -/
def EndsIn (a : Alphabet) (b : ValueBound) (v : String) : Prop :=
  b.op ≠ .lt ∧ b.value = v ∧ a.increment v = none

/-- What begins with a value is not smaller than the value. -/
theorem admits_lowerStepped (hop : b.op = .eq ∨ b.op.isLowerBound = true)
    (hlen : b.value.length = v.length) (hv : a.isOver v = true) (h : b.admits v = true)
    (rest : String) : (b.lowerStepped a).admits (v ++ rest) = true := by
  have hle := Text.le_append v rest
  obtain ⟨op, literal⟩ := b
  cases op with
  | gt =>
    have hlt : literal < v := by simpa using h
    cases hnext : a.increment literal with
    | none => simpa [lowerStepped, stepped, hnext] using Std.lt_of_lt_of_le hlt hle
    | some next =>
      -- the next value is the least one that is greater than the literal
      have hfirst := (Alphabet.increment_eq_some hnext).2.2.2 v hlen.symm hv hlt
      simpa [lowerStepped, stepped, hnext] using Std.le_trans hfirst hle
  | ge =>
    have hge : literal ≤ v := by simpa using h
    simpa [lowerStepped, stepped] using Std.le_trans hge hle
  | eq =>
    have heq : v = literal := by simpa using h
    simpa [lowerStepped, heq] using Text.le_append literal rest
  | ne | lt | le | regex | notRegex => simp [CompareOp.isLowerBound] at hop

/-- What begins with a value is found with it, unless the bound ends in the value. -/
theorem admits_upperStepped (hop : b.op = .eq ∨ b.op.isUpperBound = true)
    (hlen : b.value.length = v.length) (h : b.admits v = true) (rest : String) :
    (b.upperStepped a).admits (v ++ rest) = true ↔ rest = "" ∨ ¬ b.EndsIn a v := by
  obtain ⟨op, literal⟩ := b
  cases op with
  | lt =>
    have hlt : v < literal := by simpa using h
    have hgoes := Text.append_lt_of_lt hlen.symm hlt rest
    simp [upperStepped, stepped, EndsIn, hgoes]
  | le =>
    have hle : v ≤ literal := by simpa using h
    cases hnext : a.increment literal with
    | none =>
      -- without a next literal the bound stays, and ends in the value if that is the literal
      by_cases heq : literal = v
      · subst heq
        simp [upperStepped, stepped, EndsIn, hnext, Text.append_le_self_iff]
      · have hlt : v < literal := Std.lt_of_le_of_ne hle (Ne.symm heq)
        have hgoes := Std.le_of_lt (Text.append_lt_of_lt hlen.symm hlt rest)
        simp [upperStepped, stepped, EndsIn, hnext, heq, hgoes]
    | some next =>
      obtain ⟨hnextlen, -, hgreater, -⟩ := Alphabet.increment_eq_some hnext
      have hlt := Std.lt_of_le_of_lt hle hgreater
      have hgoes := Text.append_lt_of_lt (by rw [hnextlen]; exact hlen.symm) hlt rest
      have hends : ¬ EndsIn a ⟨.le, literal⟩ v := by
        rintro ⟨-, rfl, hlast⟩
        rw [hnext] at hlast
        cases hlast
      simp [upperStepped, stepped, hnext, hgoes, hends]
  | eq =>
    have heq : v = literal := by simpa using h
    subst heq
    cases hnext : a.increment v with
    | none => simp [upperStepped, EndsIn, hnext]
    | some next =>
      obtain ⟨hnextlen, -, hgreater, -⟩ := Alphabet.increment_eq_some hnext
      have hgoes := Text.append_lt_of_lt hnextlen.symm hgreater rest
      simp [upperStepped, EndsIn, hnext, hgoes]
  | ne | gt | ge | regex | notRegex => simp [CompareOp.isUpperBound] at hop

end ValueBound

namespace ComponentBound

/-- The bounds of a query that is widened. -/
def widened (a : Alphabet) (b : ComponentBound) : ComponentBound :=
  ⟨b.lower.map (·.lowerStepped a), b.upper.map (·.upperStepped a)⟩

/-- Bounds end in a value when the one from above does. -/
def EndsIn (a : Alphabet) (b : ComponentBound) (v : String) : Prop :=
  ∃ upper, b.upper = some upper ∧ upper.EndsIn a v

/-- Bounds on a field that are as wide as a value of it. -/
structure Fits (b : ComponentBound) (v : String) : Prop where
  lower : ∀ bound, b.lower = some bound →
    (bound.op = .eq ∨ bound.op.isLowerBound = true) ∧ bound.value.length = v.length
  upper : ∀ bound, b.upper = some bound →
    (bound.op = .eq ∨ bound.op.isUpperBound = true) ∧ bound.value.length = v.length

/-- Widened bounds find what begins with a value, unless they end in the value. The value
    itself is found always. -/
theorem Fits.admits_widened {a : Alphabet} {b : ComponentBound} {v : String} (hfits : b.Fits v)
    (hv : a.isOver v = true) (h : b.admits v = true) (rest : String) :
    (b.widened a).admits (v ++ rest) = true ↔ rest = "" ∨ ¬ b.EndsIn a v := by
  rw [admits, Bool.and_eq_true, Option.all_eq_true, Option.all_eq_true] at h
  have hlower : (b.lower.map (·.lowerStepped a)).all (·.admits (v ++ rest)) = true := by
    rw [Option.all_map, Option.all_eq_true]
    intro bound hbound
    obtain ⟨hop, hlen⟩ := hfits.lower bound hbound
    exact ValueBound.admits_lowerStepped hop hlen hv (h.1 bound hbound) rest
  rw [admits, widened, hlower, Bool.true_and]
  cases hupper : b.upper with
  | none => simp [EndsIn, hupper]
  | some bound =>
    obtain ⟨hop, hlen⟩ := hfits.upper bound hupper
    have hends : b.EndsIn a v ↔ bound.EndsIn a v := by simp [EndsIn, hupper]
    rw [hends]
    exact ValueBound.admits_upperStepped hop hlen (h.2 bound hupper) rest

end ComponentBound

namespace Folder

variable {f : Folder} {a : Alphabet} {value? : FieldValues} {pattern : Comparison → Bool}
  {call : Call → Bool} {checks : Bool}

/-! ## Widened queries -/

theorem overloadedAlphabet?_eq {m : Mapping} (hm : m ∈ f.mappings) (hover : m.isOverloaded = true) :
    f.overloadedAlphabet? m.name = f.alphabets m.name := by
  rw [overloadedAlphabet?, if_pos]
  exact List.any_eq_true.2 ⟨m, hm, by simp [hover]⟩

theorem ne_eq_of_isUpperBound {op : CompareOp} (h : op.isUpperBound = true) : op ≠ .eq := by
  cases op <;> simp_all [CompareOp.isUpperBound]

/-- A comparison on its own, moved if it can be. -/
theorem compare_stepPast {c : Comparison} {literal : String} (hregex : c.op.isRegex = false)
    (htext : c.literal.text? = some literal) :
    (Valuation.ofRecord value? pattern call checks).compare ((stepPast a c).getD c) =
      (value? c.field).any (ValueBound.stepped a ⟨c.op, literal⟩).admits := by
  obtain ⟨op, field, l⟩ := c
  cases op with
  | gt | le =>
    cases hnext : a.increment literal with
    | none => simpa [stepPast, ValueBound.stepped, htext, hnext] using ofRecord_compare rfl htext
    | some next => simpa [stepPast, ValueBound.stepped, htext, hnext] using ofRecord_compare rfl rfl
  | eq | ne | lt | ge => simpa [stepPast, ValueBound.stepped] using ofRecord_compare rfl htext
  | regex | notRegex => cases hregex

/-- A widened range asks for both bounds, moved if they can be. -/
theorem truth_widenRange {q : Query} {b : Bounds} (hq : q.bounds? = some b) (v : Valuation) :
    v.truth ((widenRange a b).getD q) =
      (v.compare ((stepPast a b.lower).getD b.lower) &&
        v.compare ((stepPast a b.upper).getD b.upper)) := by
  unfold widenRange
  split
  · rename_i hlower hupper
    rw [hlower, hupper, Option.getD_none, Option.getD_none, Option.getD_none,
      Valuation.truth_of_bounds? v hq]
  · simp [Query.range, Query.mark, Valuation.truth_marked]

/-- A bound from one side that is widened asks for itself, moved if it can be. -/
theorem truth_widenComparison_of_ne {c : Comparison} (hop : c.op ≠ .eq) (v : Valuation) :
    v.truth ((widenComparison a c).getD (.compare c)) = v.compare ((stepPast a c).getD c) := by
  rw [widenComparison, if_neg hop, Option.getD_map, Valuation.truth_compare]

/-- A widened equality asks for the values from its literal on. They end before the next
    value, or with the literal if there is none. -/
theorem truth_widenComparison_eq {c : Comparison} {literal : String} (hop : c.op = .eq)
    (htext : c.literal.text? = some literal) :
    (Valuation.ofRecord value? pattern call checks).truth
        ((widenComparison a c).getD (.compare c)) =
      (value? c.field).any ((ComponentBound.equality literal).widened a).admits := by
  obtain ⟨op, field, l⟩ := c
  obtain rfl : op = .eq := hop
  have hlower : (Valuation.ofRecord value? pattern call checks).compare ⟨.ge, field, l⟩ =
      (value? field).any (ValueBound.admits ⟨.ge, literal⟩) := ofRecord_compare rfl htext
  have hself : (Valuation.ofRecord value? pattern call checks).compare ⟨.eq, field, l⟩ =
      (value? field).any (ValueBound.admits ⟨.eq, literal⟩) := ofRecord_compare rfl htext
  cases hnext : a.increment literal with
  | none =>
    cases hvalue : value? field <;>
      simp_all [widenComparison, ComponentBound.equality, ComponentBound.widened,
        ComponentBound.admits, ValueBound.lowerStepped, ValueBound.upperStepped]
  | some next =>
    have hupper : (Valuation.ofRecord value? pattern call checks).compare
        ⟨.lt, field, .string next⟩ = (value? field).any (ValueBound.admits ⟨.lt, next⟩) :=
      ofRecord_compare rfl rfl
    cases hvalue : value? field <;>
      simp_all [widenComparison, ComponentBound.equality, ComponentBound.widened,
        ComponentBound.admits, ValueBound.lowerStepped, ValueBound.upperStepped, Query.range,
        Query.mark, Valuation.truth_marked, Comparison.withOp]

/-- A widened comparison asks for what its bounds were widened to. -/
theorem truth_widenComparison {c : Comparison} {k : Contribution} (hk : ofComparison c = some k) :
    (Valuation.ofRecord value? pattern call checks).truth
        ((widenComparison a c).getD (.compare c)) =
      (value? c.field).any (k.bound.widened a).admits := by
  obtain ⟨literal, htext, -, hbound⟩ := ofComparison_eq_some hk
  rcases hbound with ⟨hop, hbound⟩ | ⟨hop, hbound⟩ | ⟨hop, hbound⟩
  · rw [hbound]
    exact truth_widenComparison_eq hop htext
  · have hne := ne_eq_of_isLowerBound hop
    rw [truth_widenComparison_of_ne hne,
      compare_stepPast (CompareOp.isRegex_of_isLowerBound hop) htext, hbound]
    cases value? c.field <;>
      simp [ComponentBound.widened, ComponentBound.admits, ValueBound.lowerStepped, hne]
  · have hne := ne_eq_of_isUpperBound hop
    rw [truth_widenComparison_of_ne hne,
      compare_stepPast (CompareOp.isRegex_of_isUpperBound hop) htext, hbound]
    cases value? c.field <;>
      simp [ComponentBound.widened, ComponentBound.admits, ValueBound.upperStepped, hne]

/-- A query that bounds an overloaded field on its own is widened to the widened bounds. -/
theorem truth_widen {q : Query} {k : Contribution} (hk : contribution? q = some k)
    (ha : f.overloadedAlphabet? k.field = some a) :
    (Valuation.ofRecord value? pattern call checks).truth (f.widen q.ungrouped) =
      (value? k.field).any (k.bound.widened a).admits := by
  rcases contribution?_eq_some hk with
    ⟨b, lower, upper, hq, hlower, hupper, hfield, hbound⟩ | ⟨c, hq, hc⟩
  · have hwell := Query.wellFormed_of_bounds? hq
    have hwiden : f.widen q.ungrouped = (widenRange a b).getD q.ungrouped := by
      simp [widen, hq, Bounds.field, ← hfield, ha]
    rw [hwiden, truth_widenRange hq,
      compare_stepPast (CompareOp.isRegex_of_isLowerBound hwell.lower) hlower,
      compare_stepPast (CompareOp.isRegex_of_isUpperBound hwell.upper) hupper, hwell.field, hfield,
      hbound]
    cases value? b.lower.field <;>
      simp [ComponentBound.widened, ComponentBound.admits, ValueBound.lowerStepped,
        ValueBound.upperStepped, ne_eq_of_isLowerBound hwell.lower, ne_eq_of_isUpperBound hwell.upper]
  · obtain ⟨-, -, hfield, -⟩ := ofComparison_eq_some hc
    have hwiden : f.widen q.ungrouped = (widenComparison a c).getD (.compare c) := by
      simp [widen, hq, Query.bounds?, Query.comparison?, ← hfield, ha]
    rw [hwiden, truth_widenComparison hc, hfield]

/-- What bounds a field on its own is folded to its widened form, whatever groups are around
    it. -/
theorem truth_folding {q : Query} {k : Contribution} (hk : contribution? q = some k)
    (v : Valuation) : v.truth (f.folding q).folded = v.truth (f.widen q.ungrouped) := by
  fun_induction Query.ungrouped q with
  | case1 child ih =>
    rw [folding, Folding.folded, Valuation.truth_group]
    exact ih hk
  | case2 q hgroup =>
    have hself : q.ungrouped = q := by
      unfold Query.ungrouped
      split <;> simp_all
    rcases contribution?_eq_some hk with ⟨b, -, -, hq, -⟩ | ⟨c, hq, -⟩
    · rw [hself] at hq
      obtain ⟨note, child, -, -, -, -, rfl, -⟩ := Query.eq_marked_of_bounds? hq
      rfl
    · rw [hself] at hq
      subst hq
      rfl

/-- A field that is bounded on its own is bounded by what can bound it. -/
theorem fits_of_contribution? {q : Query} {k : Contribution} {v : String}
    (hk : contribution? q = some k)
    (hlen : ∀ b, k.bound.lower = some b ∨ k.bound.upper = some b → b.value.length = v.length) :
    k.bound.Fits v where
  lower := fun b hb => ⟨(lower_of_contribution? hk hb).1, hlen b (.inl hb)⟩
  upper := fun b hb => ⟨(upper_of_contribution? hk hb).1, hlen b (.inr hb)⟩

end Folder

/-! ## Overloaded fields -/

/-- A query that bounds an overloaded field on its own, and a value of the width of its
    literals that satisfies it. The folded query finds the plain value, and it finds the
    joined values that begin with this one unless the bounds end in it. -/
theorem Query.truth_fold_of_isOverloaded {config : Config} {m : Mapping} {a : Alphabet} {q : Query}
    {k : Folder.Contribution} {v : String} (hm : m ∈ config.composites)
    (hover : m.isOverloaded = true) (ha : config.alphabet? m.name = some a)
    (hk : Folder.contribution? q = some k) (hfield : k.field = m.name)
    (hlen : ∀ b, k.bound.lower = some b ∨ k.bound.upper = some b → b.value.length = v.length)
    (hv : a.isOver v = true) (hadmits : k.bound.admits v = true)
    (value? : FieldValues) (pattern : Comparison → Bool) (call : Call → Bool) (checks : Bool) :
    (value? m.name = some v →
      (Valuation.ofRecord value? pattern call checks).truth (q.fold config) = true) ∧
    ∀ rest, value? m.name = some (v ++ String.singleton m.separator ++ rest) →
      ((Valuation.ofRecord value? pattern call checks).truth (q.fold config) = true ↔
        ¬ k.bound.EndsIn a v) := by
  have hm' : m ∈ (Folder.ofConfig config).mappings := Folder.mem_mappings_ofConfig.2 hm
  have halphabet : (Folder.ofConfig config).overloadedAlphabet? k.field = some a := by
    rw [hfield, Folder.overloadedAlphabet?_eq hm' hover]
    exact ha
  have hfold : q.fold config = ((Folder.ofConfig config).folding q).folded := by
    rw [fold, if_neg]
    intro hempty
    rw [List.isEmpty_iff] at hempty
    rw [hempty] at hm'
    cases hm'
  rw [hfold, Folder.truth_folding hk, Folder.truth_widen hk halphabet, hfield]
  have hwidened := (Folder.fits_of_contribution? hk hlen).admits_widened hv hadmits
  constructor
  · intro hvalue
    rw [hvalue, Option.any_some, ← String.append_empty (s := v)]
    exact (hwidened "").2 (.inl rfl)
  · intro rest hvalue
    rw [hvalue, Option.any_some, String.append_assoc, hwidened]
    have hne : String.singleton m.separator ++ rest ≠ "" := by
      intro hnil
      have hlength := congrArg String.length hnil
      simp at hlength
    simp [hne]

/-! ### The last value of a width -/

/-- Areas are hexadecimal, and a size may follow them. -/
def areaConfig : Config :=
  { composites := [⟨"AREA", ["AREA", "SIZE"], ',', none⟩]
    fixedLengthFields := .ofList [("AREA", .hex)] }

/-- `AREA > '01' && AREA <= 'fe'`, as a range. -/
def areaRange : Query := .range ⟨⟨.gt, "AREA", .string "01"⟩, ⟨.le, "AREA", .string "fe"⟩⟩

/-- An area at the upper end of a range is found with its size. -/
theorem truth_fold_areaRange :
    (∃ m ∈ areaConfig.composites, m.isOverloaded = true ∧
      areaConfig.alphabet? m.name = some .hex ∧ m.name = "AREA") ∧
    Folder.contribution? areaRange = some ⟨"AREA", some ⟨.gt, "01"⟩, some ⟨.le, "fe"⟩⟩ ∧
    (Valuation.ofRecord (fun _ => some "fe,7") (fun _ => false) (fun _ => false) false).truth
      (areaRange.fold areaConfig) = true := by
  have hcontribution : Folder.contribution? areaRange =
      some ⟨"AREA", some ⟨.gt, "01"⟩, some ⟨.le, "fe"⟩⟩ := rfl
  have hlen : ∀ b : ValueBound, (some ⟨.gt, "01"⟩ = some b ∨ some ⟨.le, "fe"⟩ = some b) →
      b.value.length = "fe".length := by
    rintro b (hb | hb) <;> cases hb <;> rfl
  have hends : ¬ ComponentBound.EndsIn .hex ⟨some ⟨.gt, "01"⟩, some ⟨.le, "fe"⟩⟩ "fe" := by
    rintro ⟨upper, -, -, -, hlast⟩
    revert hlast
    decide
  have hmem : ⟨"AREA", ["AREA", "SIZE"], ',', none⟩ ∈ areaConfig.composites := List.mem_cons_self
  refine ⟨⟨_, hmem, rfl, rfl, rfl⟩, hcontribution, ?_⟩
  exact ((areaRange.truth_fold_of_isOverloaded hmem rfl rfl hcontribution rfl hlen rfl (by decide)
    _ _ _ _).2 "7" rfl).2 hends

/-- The last area is not found with its size, for there is no next one to end before. -/
theorem not_forall_truth_fold_of_isOverloaded :
    ¬ ∀ (config : Config) (m : Mapping) (a : Alphabet) (q : Query) (k : Folder.Contribution)
        (v rest : String),
      config.fault? = none → m ∈ config.composites → m.isOverloaded = true →
      config.alphabet? m.name = some a → Folder.contribution? q = some k → k.field = m.name →
      (∀ b, k.bound.lower = some b ∨ k.bound.upper = some b →
        b.value.length = v.length ∧ a.isOver b.value = true) →
      v ≠ "" → a.isOver v = true → k.bound.admits v = true →
      (Valuation.ofRecord (fun _ => some (v ++ String.singleton m.separator ++ rest))
        (fun _ => false) (fun _ => false) false).truth (q.fold config) = true := by
  intro hall
  have hfold : (Query.compareWith .eq "AREA" (.string "ff")).fold areaConfig =
      .compareWith .eq "AREA" (.string "ff") := by
    rw [Query.fold, Folder.ofConfig, areaConfig, List.mergeSort_singleton]
    rfl
  have hlen : ∀ b : ValueBound, (some ⟨.eq, "ff"⟩ = some b ∨ some ⟨.eq, "ff"⟩ = some b) →
      b.value.length = "ff".length ∧ Alphabet.hex.isOver b.value = true := by
    rintro b (hb | hb) <;> cases hb <;> exact ⟨rfl, rfl⟩
  have hfound := hall areaConfig ⟨"AREA", ["AREA", "SIZE"], ',', none⟩ .hex
    (.compareWith .eq "AREA" (.string "ff")) ⟨"AREA", .equality "ff"⟩ "ff" "7" rfl
    List.mem_cons_self rfl rfl rfl rfl hlen (by decide) rfl (by decide)
  rw [hfold] at hfound
  revert hfound
  decide

end IndexQuery
