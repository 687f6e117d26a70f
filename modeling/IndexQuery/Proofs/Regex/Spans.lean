import IndexQuery.Regex.Match

/-! # The stretches that an expression fits

    An expression fits stretches of a text from one place to another. Matching computes
    sets of places instead; every place that it reaches is the end of such a stretch.

    * `Spans`: an expression fits a stretch.
    * `spans_of_reach`: a place that is reached ends a stretch from where matching began.
    * `spans_of_isMatch`: a text that matches has a stretch that fits.
-/

namespace IndexQuery.Regex

/-! ## Stretches -/

/-- From one place to another in some steps of a relation. -/
def Rounds (R : Nat → Nat → Prop) : Nat → Nat → Nat → Prop
  | 0, i, j => i = j
  | n + 1, i, j => ∃ k, R i k ∧ Rounds R n k j

/-- A condition holds at a place of a text. -/
def HoldsAt (text : List Char) (a : Assertion) (i : Nat) : Prop :=
  ∃ before after, (none :: text.map some)[i]? = some before ∧
    (text.map some ++ [none])[i]? = some after ∧ a.holdsBetween before after = true

/-- An expression fits the stretch between two places of a text. -/
def Spans (text : List Char) : Regex → Nat → Nat → Prop
  | .empty, i, j => i = j
  | .chars set, i, j => (∃ c, text[i]? = some c ∧ set.contains c = true) ∧ j = i + 1
  | .look a, i, j => HoldsAt text a i ∧ i = j
  | .seq a b, i, j => ∃ k, a.Spans text i k ∧ b.Spans text k j
  | .alt a b, i, j => a.Spans text i j ∨ b.Spans text i j
  | .repeated r least most _, i, j =>
    ∃ n, least ≤ n ∧ (∀ m ∈ most, n ≤ max least m) ∧ Rounds (r.Spans text) n i j
  | .group _ r, i, j => r.Spans text i j

section Rounds

variable {R : Nat → Nat → Prop} {n m i j k : Nat}

theorem Rounds.add (h : Rounds R n i k) (h' : Rounds R m k j) : Rounds R (n + m) i j := by
  induction n generalizing i with
  | zero =>
    cases h
    rwa [Nat.zero_add]
  | succ n ih =>
    obtain ⟨l, hl, hrest⟩ := h
    rw [Nat.succ_add]
    exact ⟨l, hl, ih hrest⟩

end Rounds

/-! ## Sets of places -/

/-- A place of the result lies behind a place of the argument. -/
def Sends (f : Places → Places) (R : Nat → Nat → Prop) : Prop :=
  ∀ places j, (f places).testBit j = true → ∃ i, places.testBit i = true ∧ R i j

theorem testBit_ofBits (bits : List Bool) (i : Nat) :
    (ofBits bits).testBit i = bits[i]?.getD false := by
  induction bits generalizing i with
  | nil => simp [ofBits]
  | cons bit bits ih =>
    have hbits : ofBits (bit :: bits) = 2 * ofBits bits + bit.toNat := rfl
    rw [hbits]
    have hbit := bit.toNat_le
    cases i with
    | zero =>
      have hodd (n : Nat) : (2 * n + bit.toNat) % 2 = bit.toNat := by omega
      rw [Nat.testBit_zero, hodd]
      cases bit <;> rfl
    | succ i =>
      have hhalf (n : Nat) : (2 * n + bit.toNat) / 2 = n := by omega
      rw [Nat.testBit_add_one, hhalf, ih, List.getElem?_cons_succ]

theorem exists_of_placesBefore {text : List Char} {set : CharSet} {i : Nat}
    (h : (placesBefore text set).testBit i = true) :
    ∃ c, text[i]? = some c ∧ set.contains c = true := by
  rw [placesBefore, testBit_ofBits, List.getElem?_map] at h
  cases hc : text[i]? with
  | none => simp [hc] at h
  | some c => exact ⟨c, rfl, by simpa [hc] using h⟩

theorem holdsAt_of_placesOf {text : List Char} {a : Assertion} {i : Nat}
    (h : (placesOf text a).testBit i = true) : HoldsAt text a i := by
  rw [placesOf, testBit_ofBits, List.getElem?_zipWith] at h
  split at h
  · rename_i before after hbefore hafter
    exact ⟨before, after, hbefore, hafter, h⟩
  · exact absurd h Bool.false_ne_true

section Reach

variable {f : Places → Places} {R : Nat → Nat → Prop} {n : Nat}

/-- A set that a round does not change is left by no number of rounds. -/
theorem exists_rounds_of_fixed (hf : Sends f R) {places : Places} (hfix : f places = places) (n : Nat)
    {j : Nat} (hj : places.testBit j = true) : ∃ i, places.testBit i = true ∧ Rounds R n i j := by
  induction n with
  | zero => exact ⟨j, hj, rfl⟩
  | succ n ih =>
    obtain ⟨k, hk, hrounds⟩ := ih
    obtain ⟨i, hi, hik⟩ := hf places k (by rwa [hfix])
    exact ⟨i, hi, k, hik, hrounds⟩

theorem sends_goOn (hf : Sends f R) (n : Nat) : Sends (goOn f n) (Rounds R n) := by
  induction n with
  | zero => exact fun places j hj => ⟨j, hj, rfl⟩
  | succ n ih =>
    intro places j hj
    rw [goOn] at hj
    split at hj
    · rename_i hfix
      exact exists_rounds_of_fixed hf hfix (n + 1) hj
    · obtain ⟨k, hk, hrounds⟩ := ih _ _ hj
      obtain ⟨i, hi, hik⟩ := hf _ _ hk
      exact ⟨i, hi, k, hik, hrounds⟩

theorem sends_goOnUpTo (hf : Sends f R) (n : Nat) :
    Sends (goOnUpTo f n) fun i j => ∃ m ≤ n, Rounds R m i j := by
  induction n with
  | zero => exact fun places j hj => ⟨j, hj, 0, Nat.le_refl 0, rfl⟩
  | succ n ih =>
    intro places j hj
    rw [goOnUpTo] at hj
    split at hj
    · exact ⟨j, hj, 0, Nat.zero_le _, rfl⟩
    · obtain ⟨k, hk, m, hm, hrounds⟩ := ih _ _ hj
      rw [Nat.testBit_or, Bool.or_eq_true] at hk
      rcases hk with hk | hk
      · exact ⟨k, hk, m, Nat.le_succ_of_le hm, hrounds⟩
      · obtain ⟨i, hi, hik⟩ := hf _ _ hk
        exact ⟨i, hi, m + 1, Nat.succ_le_succ hm, k, hik, hrounds⟩

end Reach

/-! ## Matching -/

/-- A place that is reached ends a stretch that fits. -/
theorem spans_of_reach (text : List Char) (length : Nat) (r : Regex) :
    Sends ((r.track text).reach length) (r.Spans text) := by
  induction r with
  | empty =>
    intro places j hj
    rw [track, Track.reach, Nat.testBit_and, Bool.and_eq_true] at hj
    exact ⟨j, hj.1, rfl⟩
  | chars set =>
    intro places j hj
    rw [track, Track.reach, Nat.testBit_shiftLeft, Bool.and_eq_true, Nat.testBit_and,
      Bool.and_eq_true, decide_eq_true_eq] at hj
    obtain ⟨hpos, hplaces, hchar⟩ := hj
    exact ⟨j - 1, hplaces, exists_of_placesBefore hchar, by omega⟩
  | look a =>
    intro places j hj
    rw [track, Track.reach, Nat.testBit_and, Bool.and_eq_true] at hj
    exact ⟨j, hj.1, holdsAt_of_placesOf hj.2, rfl⟩
  | seq a b iha ihb =>
    intro places j hj
    simp only [track, Track.reach] at hj
    split at hj
    · exact absurd hj (by simp)
    · obtain ⟨k, hk, hb⟩ := ihb _ _ hj
      obtain ⟨i, hi, ha⟩ := iha _ _ hk
      exact ⟨i, hi, k, ha, hb⟩
  | alt a b iha ihb =>
    intro places j hj
    rw [track, Track.reach, Nat.testBit_or, Bool.or_eq_true] at hj
    rcases hj with hj | hj
    · obtain ⟨i, hi, ha⟩ := iha _ _ hj
      exact ⟨i, hi, .inl ha⟩
    · obtain ⟨i, hi, hb⟩ := ihb _ _ hj
      exact ⟨i, hi, .inr hb⟩
  | repeated r least most short ih =>
    intro places j hj
    simp only [track, Track.reach] at hj
    -- the repetitions that are needed lead to `k`, and those that are allowed on to `j`
    obtain ⟨k, hk, m, hm, hmore⟩ := sends_goOnUpTo ih _ _ _ hj
    obtain ⟨i, hi, hleast⟩ := sends_goOn ih _ _ _ hk
    refine ⟨i, hi, least + m, Nat.le_add_right _ _, fun limit hlimit => ?_, hleast.add hmore⟩
    rw [Option.mem_def] at hlimit
    subst hlimit
    dsimp only at hm
    omega
  | group number r ih => exact ih

/-- Matching without what is remembered. -/
theorem isMatch_eq (r : Regex) (text : String) : r.isMatch text =
    ((r.track text.toList).reach text.toList.length (allPlaces text.toList) != 0) := by
  rw [isMatch, trackWith_fst]

/-- A text that matches has a stretch that fits. -/
theorem spans_of_isMatch {r : Regex} {text : String} (h : r.isMatch text = true) :
    ∃ i j, r.Spans text.toList i j := by
  rw [isMatch_eq, bne_iff_ne] at h
  obtain ⟨j, hj⟩ := Nat.exists_testBit_of_ne_zero h
  obtain ⟨i, -, hspans⟩ := spans_of_reach _ _ _ _ _ hj
  exact ⟨i, j, hspans⟩

end IndexQuery.Regex
