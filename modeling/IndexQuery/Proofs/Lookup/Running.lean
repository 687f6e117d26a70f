import IndexQuery.Proofs.Plan.Collected

/-! # What a running look-up depends on

    A leaf carries a cursor and remembered answers from one evaluation to the next. What
    it finds depends on neither: it is decided by the look-up and the source, and these
    stay as they are.

    * `Leaf.matched_eq`: a leaf matches when its scan of the whole range reads a value that
      passes, though it may stop at the first one.
    * `Leaf.matched_fresh`, `Leaf.collected_fresh`: a leaf finds what it would find at the
      start.
    * `Leaf.fresh_evaluate`: an evaluation leaves the look-up and the source as they are.
-/

namespace IndexQuery.Leaf

variable (leaf : Leaf) (read : Lookup → Key → Option String) (first : Bool)

/-! ## What stays -/

@[simp] theorem fresh_fresh : leaf.fresh.fresh = leaf.fresh := rfl

@[simp] theorem fresh_reset : leaf.reset.fresh = leaf.fresh := rfl

theorem fresh_eq_of {leaf' : Leaf} (hlookup : leaf'.lookup = leaf.lookup)
    (hsource : leaf'.cursor.source = leaf.cursor.source) : leaf'.fresh = leaf.fresh := by
  show start leaf'.lookup leaf'.cursor.source = start leaf.lookup leaf.cursor.source
  rw [hlookup, hsource]

@[simp] theorem fresh_check (value : String) : (leaf.check value).2.fresh = leaf.fresh := by
  obtain ⟨hlookup, hcursor⟩ := leaf.snd_check value
  exact leaf.fresh_eq_of hlookup (by rw [hcursor])

/-- A scan moves the cursor and fills the memo, wherever it stops. -/
theorem fresh_collect (keys : List Key) : (collect read first leaf keys).2.fresh = leaf.fresh := by
  induction keys generalizing leaf with
  | nil => rfl
  | cons key rest ih =>
    cases hread : read leaf.lookup key with
    | none =>
      rw [collect]
      simp only [hread]
      exact ih leaf
    | some value =>
      have hrest := (ih (leaf.check value).2).trans (leaf.fresh_check value)
      rw [leaf.collect_cons_of_read first rest hread]
      dsimp only
      split
      · split
        · -- the scan stops here, with the cursor on this key
          exact leaf.fresh_check value
        · exact hrest
      · exact hrest

theorem fresh_gather (range : KeyRange) : (leaf.gather read first range).2.fresh = leaf.fresh :=
  fresh_collect { leaf with cursor := leaf.cursor.seek range } read first _

/-- An evaluation leaves the look-up and the source as they are. -/
theorem fresh_evaluate (d : Document) : (leaf.evaluate d).next.fresh = leaf.fresh := by
  have hfields :=
    leaf.fresh_gather Lookup.fieldValue? (!leaf.lookup.aggregate) leaf.lookup.scanRange
  unfold evaluate
  dsimp only
  cases hgather : leaf.gather Lookup.fieldValue? (!leaf.lookup.aggregate) leaf.lookup.scanRange with
  | mk found next =>
    rw [hgather] at hfields
    -- the second scan starts where the first one ended
    have hterms := next.fresh_gather Lookup.termValue? false leaf.lookup.record.termRange
    cases found with
    | nil => exact hfields
    | cons value values =>
      dsimp only
      split
      · exact hfields
      · split
        · exact hterms.trans hfields
        · exact hfields

/-! ## What is found -/

/-- A scan that may stop at the first value finds none just when there is none. -/
theorem isEmpty_collect (keys : List Key) :
    (collect read first leaf keys).1.isEmpty =
      ((keys.filterMap (read leaf.lookup)).filter leaf.lookup.test.accepts).isEmpty := by
  induction keys generalizing leaf with
  | nil => rfl
  | cons key rest ih =>
    cases hread : read leaf.lookup key with
    | none =>
      rw [collect, List.filterMap_cons_none hread]
      simp only [hread]
      exact ih leaf
    | some value =>
      -- what is remembered of this value changes nothing for the rest
      have hrest := ih (leaf.check value).2
      rw [(leaf.snd_check value).1] at hrest
      rw [leaf.collect_cons_of_read first rest hread, List.filterMap_cons_some hread,
        List.filter_cons]
      by_cases haccepts : leaf.lookup.test.accepts value = true
      · by_cases hfirst : first = true
        · simp [haccepts, hfirst]
        · simp [haccepts, hfirst]
      · rw [if_neg haccepts, if_neg haccepts]
        exact hrest

/-- A leaf matches when its scan of the whole range reads a value that passes. -/
theorem matched_eq :
    leaf.matched =
      !(leaf.lookup.valuesIn leaf.cursor.source Lookup.fieldValue? leaf.lookup.scanRange).isEmpty := by
  unfold matched
  rw [matched_evaluate_eq]
  exact congrArg not (isEmpty_collect { leaf with cursor := leaf.cursor.seek leaf.lookup.scanRange }
    Lookup.fieldValue? (!leaf.lookup.aggregate) _)

@[simp] theorem matched_fresh : leaf.fresh.matched = leaf.matched := by
  rw [matched_eq, matched_eq]
  rfl

@[simp] theorem collected_fresh : leaf.fresh.collected = leaf.collected := rfl

end IndexQuery.Leaf
