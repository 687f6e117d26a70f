import IndexQuery.Proofs.Lookup.Running
import IndexQuery.Proofs.Store.Cursor
import IndexQuery.Proofs.Store.Entry

/-! # Look-ups are exact

    A look-up scans a stretch of the index, and reads of it what belongs to the record and
    the field, was written in time and passes the test. For a single value, and for a
    range of values that ends in text free of NUL, the stretch holds all there is.

    * `Lookup.SaysField`, `Lookup.SaysTerm`: what a key says of the record and the field.
    * `Lookup.mem_valuesIn_scanRange`, `Lookup.mem_valuesIn_termRange`: either scan reads
      just the values that a key of the source says.
    * `Leaf.evaluate_exact`: what an evaluation answers, and what it adds to a document.
-/

namespace IndexQuery

/-! ## Documents -/

namespace Document

variable {d : Document} {field other : String} {values : List String}

theorem get?_insert_of_ne {value : String} (h : other ≠ field) :
    (d.insert field value).fields.get? other = d.fields.get? other := by
  simp [insert, SortedMap.get?_put, h]

/-- The other fields are as before. -/
theorem get?_insertAll_of_ne (h : other ≠ field) :
    (d.insertAll field values).fields.get? other = d.fields.get? other := by
  induction values generalizing d with
  | nil => rfl
  | cons value values ih =>
    have hrest := ih (d := d.insert field value)
    rw [get?_insert_of_ne h] at hrest
    exact hrest

theorem contains_insert_self {value : String} : (d.insert field value).contains field = true := by
  simp [insert, contains, SortedMap.contains, SortedMap.get?_put]

/-- A field is there if it was, or if there are values to add. -/
theorem contains_insertAll :
    (d.insertAll field values).contains field = true ↔
      d.contains field = true ∨ ∃ value, value ∈ values := by
  induction values generalizing d with
  | nil => simp [insertAll]
  | cons value values ih =>
    have hrest := ih (d := d.insert field value)
    have hnow : (d.insertAll field (value :: values)).contains field = true :=
      hrest.2 (.inl contains_insert_self)
    simp only [hnow, true_iff]
    exact .inr ⟨value, List.mem_cons_self⟩

end Document

/-! ## What keys say -/

namespace ValueTest

/-- A test for one value, or for a range of values whose upper end is free of NUL. -/
def IsDelimited : ValueTest → Prop
  | .point _ => True
  | .range _ _ upper _ => nul ∉ upper.toList
  | .regex _ => False

/-- What passes lies between the bounds. -/
theorem IsDelimited.bounds_of_accepts {test : ValueTest} {value : String} (h : test.IsDelimited)
    (hvalue : test.accepts value = true) :
    test.bounds.1 ≤ value ∧ value ≤ test.bounds.2 ∧
      (nul ∉ test.bounds.2.toList ∨ value = test.bounds.2) := by
  cases test with
  | point expected =>
    have heq : value = expected := by simpa [accepts] using hvalue
    subst heq
    exact ⟨String.le_refl _, String.le_refl _, .inr rfl⟩
  | range lower lowerInclusive upper upperInclusive =>
    rw [accepts, Bool.and_eq_true] at hvalue
    obtain ⟨hlower, hupper⟩ := hvalue
    -- an exclusive bound is a bound
    have hle : lower ≤ value := by
      split at hlower
      · exact of_decide_eq_true hlower
      · exact Std.le_of_lt (of_decide_eq_true hlower)
    have hge : value ≤ upper := by
      split at hupper
      · exact of_decide_eq_true hupper
      · exact Std.le_of_lt (of_decide_eq_true hupper)
    exact ⟨hle, hge, .inl h⟩
  | regex pattern => exact h.elim

end ValueTest

namespace Lookup

variable (l : Lookup)

/-- A key was written within the window of a look-up. -/
def InTime (key : Key) : Prop :=
  ∀ w, l.window = some w → w.start ≤ key.timestamp ∧ key.timestamp ≤ w.finish

theorem acceptsTime_iff {key : Key} : l.acceptsTime key = true ↔ l.InTime key := by
  unfold acceptsTime InTime
  cases l.window with
  | none => simp
  | some w => simp [TimeWindow.accepts]

/-- A key is a field index entry, written in time, which says that the record has a value
    of the field that passes the test. -/
structure SaysField (key : Key) (value : String) : Prop where
  row : key.row = l.record.row
  family : key.family = FieldEntry.family l.field
  entry : FieldEntry.ofQualifier? key.qualifier =
    some ⟨value, l.record.datatype, l.record.uid⟩
  inTime : l.InTime key
  passes : l.test.accepts value = true

/-- A key is a term frequency entry of the record, written in time, which says that the
    field has a value that passes the test. -/
structure SaysTerm (key : Key) (value : String) : Prop where
  row : key.row = l.record.row
  family : key.family = TermEntry.family
  entry : l.record.termEntry? key.qualifier = some ⟨value, l.field⟩
  inTime : l.InTime key
  passes : l.test.accepts value = true

theorem fieldValue?_eq_some_iff {key : Key} {value : String} :
    l.fieldValue? key = some value ↔
      l.InTime key ∧ FieldEntry.ofQualifier? key.qualifier =
        some ⟨value, l.record.datatype, l.record.uid⟩ := by
  rw [fieldValue?, ← acceptsTime_iff]
  by_cases htime : l.acceptsTime key = true
  · simp only [htime, if_true, true_and, Option.map_eq_some_iff, Option.filter_eq_some_iff,
      RecordId.owns, Bool.and_eq_true, decide_eq_true_eq]
    constructor
    · rintro ⟨⟨value, datatype, uid⟩, ⟨hentry, rfl, rfl⟩, rfl⟩
      exact hentry
    · intro hentry
      exact ⟨_, ⟨hentry, rfl, rfl⟩, rfl⟩
  · simp [htime]

theorem termValue?_eq_some_iff {key : Key} {value : String} :
    l.termValue? key = some value ↔
      l.InTime key ∧ l.record.termEntry? key.qualifier = some ⟨value, l.field⟩ := by
  rw [termValue?, ← acceptsTime_iff]
  by_cases htime : l.acceptsTime key = true
  · simp only [htime, if_true, true_and, Option.map_eq_some_iff, Option.filter_eq_some_iff,
      decide_eq_true_eq]
    constructor
    · rintro ⟨⟨value, field⟩, ⟨hentry, rfl⟩, rfl⟩
      exact hentry
    · intro hentry
      exact ⟨_, ⟨hentry, rfl⟩, rfl⟩
  · simp [htime]

/-! ## Scans -/

theorem mem_valuesIn {source : Source} {read : Lookup → Key → Option String} {range : KeyRange}
    {value : String} :
    value ∈ l.valuesIn source read range ↔
      ∃ key ∈ source.entries.keys, range.contains key = true ∧ read l key = some value ∧
        l.test.accepts value = true := by
  simp only [valuesIn, Cursor.scan_eq_filter, List.mem_filter, List.mem_filterMap]
  constructor
  · rintro ⟨⟨key, ⟨hkey, hrange⟩, hread⟩, hpasses⟩
    exact ⟨key, hkey, hrange, hread, hpasses⟩
  · rintro ⟨key, hkey, hrange, hread, hpasses⟩
    exact ⟨⟨key, ⟨hkey, hrange⟩, hread⟩, hpasses⟩

/-- The scan of the field index reads the values that pass and that a key of the source
    says the record has. -/
theorem mem_valuesIn_scanRange {source : Source} {value : String} (h : l.test.IsDelimited) :
    value ∈ l.valuesIn source fieldValue? l.scanRange ↔
      ∃ key ∈ source.entries.keys, l.SaysField key value := by
  rw [mem_valuesIn]
  constructor
  · rintro ⟨key, hkey, hrange, hread, hpasses⟩
    obtain ⟨hrow, hfamily, -, -⟩ := KeyRange.contains_qualifiers.1 hrange
    obtain ⟨htime, hentry⟩ := l.fieldValue?_eq_some_iff.1 hread
    exact ⟨key, hkey, hrow, hfamily, hentry, htime, hpasses⟩
  · rintro ⟨key, hkey, hfact⟩
    obtain ⟨hlower, hupper, hnul⟩ := h.bounds_of_accepts hfact.passes
    have hqualifier := (FieldEntry.ofQualifier?_eq_some_iff.1 hfact.entry).1
    have hrange := l.record.contains_fieldRange_of_le hfact.row hfact.family hqualifier
      hlower hupper hnul
    have hread := l.fieldValue?_eq_some_iff.2 ⟨hfact.inTime, hfact.entry⟩
    exact ⟨key, hkey, hrange, hread, hfact.passes⟩

/-- The scan of the term frequency entries reads the values that pass and that a key of the
    source says the field has. -/
theorem mem_valuesIn_termRange {source : Source} {value : String} :
    value ∈ l.valuesIn source termValue? l.record.termRange ↔
      ∃ key ∈ source.entries.keys, l.SaysTerm key value := by
  rw [mem_valuesIn]
  constructor
  · rintro ⟨key, hkey, hrange, hread, hpasses⟩
    obtain ⟨hrow, hfamily, -, -⟩ := KeyRange.contains_qualifiers.1 hrange
    obtain ⟨htime, hentry⟩ := l.termValue?_eq_some_iff.1 hread
    exact ⟨key, hkey, hrow, hfamily, hentry, htime, hpasses⟩
  · rintro ⟨key, hkey, hfact⟩
    have hqualifier := (l.record.termEntry?_eq_some_iff.1 hfact.entry).1
    have hrange := l.record.contains_termRange hfact.row hfact.family hqualifier
    have hread := l.termValue?_eq_some_iff.2 ⟨hfact.inTime, hfact.entry⟩
    exact ⟨key, hkey, hrange, hread, hfact.passes⟩

end Lookup

/-! ## Evaluation -/

namespace Leaf

variable (leaf : Leaf)

theorem matched_iff (h : leaf.lookup.test.IsDelimited) :
    leaf.matched = true ↔
      ∃ key ∈ leaf.cursor.source.entries.keys, ∃ value, leaf.lookup.SaysField key value := by
  have hvalues : leaf.matched = true ↔ ∃ value,
      value ∈ leaf.lookup.valuesIn leaf.cursor.source Lookup.fieldValue? leaf.lookup.scanRange := by
    rw [matched_eq, Bool.not_eq_true', List.isEmpty_eq_false_iff_exists_mem]
  rw [hvalues]
  constructor
  · rintro ⟨value, hvalue⟩
    obtain ⟨key, hkey, hfact⟩ := (leaf.lookup.mem_valuesIn_scanRange h).1 hvalue
    exact ⟨key, hkey, value, hfact⟩
  · rintro ⟨key, hkey, value, hfact⟩
    exact ⟨value, (leaf.lookup.mem_valuesIn_scanRange h).2 ⟨key, hkey, hfact⟩⟩

/-- The values that a leaf collects are those that its term frequency entries say, or
    those that its field index entries say. -/
theorem mem_collected {value : String} (h : leaf.lookup.test.IsDelimited)
    (haggregate : leaf.lookup.aggregate = true) :
    value ∈ leaf.collected ↔ ∃ key ∈ leaf.cursor.source.entries.keys,
      if leaf.lookup.termFrequency then leaf.lookup.SaysTerm key value
      else leaf.lookup.SaysField key value := by
  unfold collected Lookup.collected
  rw [haggregate, Bool.not_true, if_neg Bool.false_ne_true]
  split
  · exact leaf.lookup.mem_valuesIn_termRange
  · exact leaf.lookup.mem_valuesIn_scanRange h

/-- The look-up of a value, or of a range of values that ends in text free of NUL, from
    whatever place of the cursor and with whatever is remembered:

    * it matches just when the source has a key that says that the record has a value of
      the field which passes;
    * without a match, or if it does not collect, the document stays as it was;
    * else the field gains all values that pass and that the term frequency entries, or
      the field index entries, say it has, and the other fields stay as they were. -/
theorem evaluate_exact (d : Document) (h : leaf.lookup.test.IsDelimited) :
    let l := leaf.lookup
    let keys := leaf.cursor.source.entries.keys
    let r := leaf.evaluate d
    let Gains (value : String) : Prop := ∃ key ∈ keys,
      if l.termFrequency then l.SaysTerm key value else l.SaysField key value
    (r.matched = true ↔ ∃ key ∈ keys, ∃ value, l.SaysField key value) ∧
      (r.matched = false ∨ l.aggregate = false → r.document = d) ∧
      (r.matched = true → l.aggregate = true →
        (∀ value, value ∈ r.document.values l.field ↔ value ∈ d.values l.field ∨ Gains value) ∧
        (r.document.contains l.field = true ↔
          d.contains l.field = true ∨ ∃ value, Gains value) ∧
        ∀ field, field ≠ l.field → r.document.fields.get? field = d.fields.get? field) := by
  intro l keys r Gains
  have hmatched : r.matched = leaf.matched := leaf.matched_evaluate d
  have hdocument : r.document = if leaf.matched then d.insertAll l.field leaf.collected else d :=
    leaf.document_evaluate d
  refine ⟨?_, ?_, ?_⟩
  · rw [hmatched]
    exact leaf.matched_iff h
  · rintro (hnone | haggregate)
    · rw [hdocument, ← hmatched, hnone]
      rfl
    · -- there is nothing to add
      have hnothing : leaf.collected = [] := by
        unfold collected Lookup.collected
        rw [show leaf.lookup.aggregate = false from haggregate]
        rfl
      rw [hdocument, hnothing]
      cases leaf.matched <;> rfl
  · intro hmatch haggregate
    have hgains : ∀ value, value ∈ leaf.collected ↔ Gains value :=
      fun value => leaf.mem_collected h haggregate
    rw [hdocument, ← hmatched, hmatch, if_pos rfl]
    refine ⟨?_, ?_, ?_⟩
    · intro value
      rw [Document.mem_values_insertAll, hgains]
      simp only [true_and]
      exact or_comm
    · rw [Document.contains_insertAll]
      simp only [hgains]
    · intro field hfield
      exact Document.get?_insertAll_of_ne hfield

/-- A leaf for the values of `A` from `a` on and before `ab`, on entries where values
    begin with others or hold NUL, and where another record has a value in between. -/
def betweenLeaf : Leaf where
  lookup := ⟨"A", .range "a" true "ab" false, ⟨"20240101_0", "event", "uid.1"⟩, true, false, none⟩
  cursor :=
    let record : RecordId := ⟨"20240101_0", "event", "uid.1"⟩
    let other : RecordId := ⟨"20240101_0", "event", "uid.2"⟩
    let first : Source := (Source.writeField {} record "A" "a" 1).writeField record "A" "a" 2
    let second : Source := (first.writeField record "A" "a\x00z" 1).writeField record "A" "ab" 1
    { source := second.writeField other "A" "aa" 1
      key? := some (record.fieldKey "A" "ab" 1) }

example : ((betweenLeaf.evaluate ∅).document.values "A").toList = ["a", "a\x00z"] := by decide

theorem evaluate_exact_betweenLeaf :
    betweenLeaf.lookup.test.IsDelimited ∧ (betweenLeaf.evaluate ∅).matched = true ∧
      ∀ value, value ∈ (betweenLeaf.evaluate ∅).document.values "A" ↔
        ∃ key ∈ betweenLeaf.cursor.source.entries.keys, betweenLeaf.lookup.SaysField key value := by
  have hdelimited : betweenLeaf.lookup.test.IsDelimited := by
    show nul ∉ "ab".toList
    decide
  have hmatched : (betweenLeaf.evaluate ∅).matched = true := rfl
  obtain ⟨-, -, hgains⟩ := betweenLeaf.evaluate_exact ∅ hdelimited
  have hvalues := (hgains hmatched rfl).1
  refine ⟨hdelimited, hmatched, fun value => ?_⟩
  have hempty : value ∉ (∅ : Document).values "A" := List.not_mem_nil
  exact (hvalues value).trans (or_iff_right hempty)

end Leaf

end IndexQuery
