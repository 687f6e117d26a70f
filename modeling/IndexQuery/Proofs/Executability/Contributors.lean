import IndexQuery.Executability.Contributors

/-! # Contributors as a relation

    Contributors say which text stands under which state. Each operation on them is told by
    the texts that stand under a state afterwards.

    * `Contributors.mem_absorb`, `Contributors.mem_relabel`: which texts are taken over from
      others, and which ones are moved to a state.
    * `Contributors.isEmpty_iff`: that no text stands under any state.
    * `Contributors.summary_of_mem`: a state with texts shows the first ones in the summary.
-/

namespace IndexQuery

/-- Each of several texts stands in them joined. -/
theorem exists_intercalate_eq (separator : String) {text : String} {texts : List String}
    (h : text ∈ texts) : ∃ front back, separator.intercalate texts = front ++ text ++ back := by
  induction texts with
  | nil => cases h
  | cons first texts ih =>
    match texts, List.mem_cons.1 h with
    | [], .inl heq => exact ⟨"", "", by simp [heq]⟩
    | second :: rest, .inl heq =>
      refine ⟨"", separator ++ separator.intercalate (second :: rest), ?_⟩
      rw [String.intercalate_cons_cons, heq, String.empty_append, String.append_assoc]
    | second :: rest, .inr hrest =>
      obtain ⟨front, back, hjoined⟩ := ih hrest
      refine ⟨first ++ separator ++ front, back, ?_⟩
      rw [String.intercalate_cons_cons, hjoined]
      simp only [String.append_assoc]

namespace Contributors

variable {c other : Contributors} {s s' : ExecState} {t t' : String}

/-! ## The texts under a state -/

/-- The texts under a state are those of its entry. -/
theorem mem_termsOf_iff : t ∈ c.termsOf s ↔ ∃ terms, (s, terms) ∈ c.terms.entries ∧ t ∈ terms := by
  unfold termsOf
  constructor
  · intro ht
    cases hget : c.terms.get? s with
    | none =>
      rw [hget] at ht
      exact absurd ht SortedSet.not_mem_empty
    | some terms =>
      rw [hget] at ht
      exact ⟨terms, SortedMap.get?_eq_some_iff.1 hget, ht⟩
  · intro ⟨terms, hentry, ht⟩
    rw [SortedMap.get?_eq_some_iff.2 hentry]
    exact ht

@[simp] theorem not_mem_none : t ∉ none.termsOf s := SortedSet.not_mem_empty

theorem mem_single : t ∈ (single s' t').termsOf s ↔ s = s' ∧ t = t' := by
  unfold single termsOf
  rw [SortedMap.get?_put]
  by_cases hs : s = s'
  · simp [hs, SortedSet.singleton]
  · simp [hs]

/-- An added text stands under its state, and all others stand where they stood. -/
theorem mem_add {terms : SortedSet String} :
    t ∈ (c.add s' terms).termsOf s ↔ t ∈ c.termsOf s ∨ s = s' ∧ t ∈ terms := by
  unfold add
  split
  · rename_i hempty
    have hnot : t ∉ terms := by
      rw [SortedSet.mem_def, List.isEmpty_iff.1 hempty]
      exact List.not_mem_nil
    simp [hnot]
  · show t ∈ ((c.terms.put s' _).get? s).getD ∅ ↔ _
    rw [SortedMap.get?_put]
    by_cases hs : s = s'
    · simp [hs]
    · simp [hs, termsOf]

/-- What is absorbed are the texts under the given states. -/
theorem mem_absorb {states : List ExecState} :
    t ∈ (c.absorb other states).termsOf s ↔ t ∈ c.termsOf s ∨ s ∈ states ∧ t ∈ other.termsOf s := by
  unfold absorb
  induction states generalizing c with
  | nil => simp
  | cons s' states ih =>
    have hfirst : s = s' ∧ t ∈ other.termsOf s' ↔ s = s' ∧ t ∈ other.termsOf s :=
      and_congr_right fun hs => by rw [hs]
    rw [List.foldl_cons, ih, mem_add, List.mem_cons, or_assoc, or_and_right, hfirst]

/-- Absorbing several others one after the other. -/
theorem mem_foldl_absorb {α : Type} {f : α → Contributors} {items : List α}
    {states : List ExecState} :
    t ∈ (items.foldl (fun sum item => sum.absorb (f item) states) c).termsOf s ↔
      t ∈ c.termsOf s ∨ s ∈ states ∧ ∃ item ∈ items, t ∈ (f item).termsOf s := by
  induction items generalizing c with
  | nil => simp
  | cons item items ih =>
    rw [List.foldl_cons, ih, mem_absorb, or_assoc, ← and_or_left]
    simp only [List.mem_cons, exists_eq_or_imp]

/-- Adding the texts of several entries, each under its new state. -/
theorem mem_foldl_add {target : ExecState → ExecState}
    {entries : List (ExecState × SortedSet String)} :
    t ∈ (entries.foldl (fun sum e => sum.add (target e.1) e.2) c).termsOf s ↔
      t ∈ c.termsOf s ∨ ∃ e ∈ entries, s = target e.1 ∧ t ∈ e.2 := by
  induction entries generalizing c with
  | nil => simp
  | cons e entries ih =>
    rw [List.foldl_cons, ih, mem_add, or_assoc]
    simp only [List.mem_cons, exists_eq_or_imp]

/-- A text moves to the state that its own one is relabeled to. -/
theorem mem_relabel {target : ExecState → ExecState} :
    t ∈ (c.relabel target).termsOf s ↔ ∃ s', target s' = s ∧ t ∈ c.termsOf s' := by
  show t ∈ (c.terms.entries.foldl (fun sum e => sum.add (target e.1) e.2) none).termsOf s ↔ _
  rw [mem_foldl_add]
  constructor
  · rintro (h | ⟨e, hentry, htarget, ht⟩)
    · exact absurd h not_mem_none
    · exact ⟨e.1, htarget.symm, mem_termsOf_iff.2 ⟨e.2, hentry, ht⟩⟩
  · rintro ⟨s', htarget, ht⟩
    obtain ⟨terms, hentry, ht⟩ := mem_termsOf_iff.1 ht
    exact .inr ⟨(s', terms), hentry, htarget.symm, ht⟩

/-- There are no contributors if no text stands under any state. -/
theorem isEmpty_iff : c.isEmpty = true ↔ ∀ s t, t ∉ c.termsOf s := by
  unfold isEmpty SortedMap.values
  rw [List.all_eq_true]
  constructor
  · intro h s t ht
    obtain ⟨terms, hentry, ht⟩ := mem_termsOf_iff.1 ht
    have hempty : terms.isEmpty = true := h terms (List.mem_map.2 ⟨(s, terms), hentry, rfl⟩)
    rw [SortedSet.mem_def, List.isEmpty_iff.1 hempty] at ht
    cases ht
  · intro h terms hterms
    obtain ⟨⟨s, terms⟩, hentry, rfl⟩ := List.mem_map.1 hterms
    unfold SortedSet.isEmpty
    rw [List.isEmpty_iff, List.eq_nil_iff_forall_not_mem]
    intro t ht
    exact h s t (mem_termsOf_iff.2 ⟨terms, hentry, ht⟩)

theorem isEmpty_eq_false_iff : c.isEmpty = false ↔ ∃ s t, t ∈ c.termsOf s := by
  rw [← Bool.not_eq_true, isEmpty_iff]
  simp

/-! ## Summaries -/

/-- The summary lists the first texts of each state with texts, as many as it may. -/
theorem summary_of_mem {limit : Nat} (hlimit : 1 ≤ limit) (h : t ∈ c.termsOf s) :
    ∃ first more front back, (c.termsOf s).toList.take limit = first :: more ∧
      c.summary limit = front ++ ("[" ++ ", ".intercalate (first :: more) ++ "]") ++ back := by
  obtain ⟨terms, hentry, ht⟩ := mem_termsOf_iff.1 h
  have hterms : c.termsOf s = terms := by
    rw [termsOf, SortedMap.get?_eq_some_iff.2 hentry]
    rfl
  rw [hterms]
  -- there is a first text to show
  obtain ⟨first, rest, hlist⟩ := List.exists_cons_of_ne_nil (List.ne_nil_of_mem ht)
  have htake : terms.toList.take limit = first :: rest.take (limit - 1) := by
    rw [hlist, List.take_cons hlimit]
  refine ⟨first, rest.take (limit - 1), ?_⟩
  have hpart : ∃ front, summaryPart limit s terms =
      front ++ ("[" ++ ", ".intercalate (first :: rest.take (limit - 1)) ++ "]") := by
    unfold summaryPart
    rw [htake]
    split
    · exact ⟨_, rfl⟩
    · exact ⟨_, rfl⟩
  obtain ⟨label, hpart⟩ := hpart
  have hshown : summaryPart limit s terms ∈
      (c.terms.entries.filter fun e => !e.2.isEmpty).map fun e => summaryPart limit e.1 e.2 := by
    refine List.mem_map.2 ⟨(s, terms), List.mem_filter.2 ⟨hentry, ?_⟩, rfl⟩
    simp [SortedSet.isEmpty, hlist]
  obtain ⟨front, back, hjoined⟩ := exists_intercalate_eq "; " hshown
  refine ⟨"Summary: " ++ front ++ label, back, htake, ?_⟩
  show "Summary: " ++ "; ".intercalate ((c.terms.entries.filter fun e => !e.2.isEmpty).map
    fun e => summaryPart limit e.1 e.2) = _
  rw [hjoined, hpart]
  simp only [String.append_assoc]

end Contributors

end IndexQuery
