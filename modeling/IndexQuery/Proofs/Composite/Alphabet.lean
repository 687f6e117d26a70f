import IndexQuery.Composite.Alphabet

/-! # Neighbours among the values of an alphabet

    Stepping a value over an alphabet is counting: no value of the same width lies
    between a value and the next one, or between a value and the previous one.

    * `Alphabet.Steps`: what a step between characters has to do.
    * `Alphabet.stepWith_eq_some`: a carry makes a step between texts of it.
    * `Alphabet.increment_eq_some`, `Alphabet.decrement_eq_some`: the neighbours of
      a value.
-/

namespace IndexQuery.Alphabet

/-! ## Steps between characters -/

/-- A step to the next of some characters in the order `before`, the first of which
    is `fill`. -/
structure Steps (member : Char → Bool) (before : Char → Char → Prop) (step : Char → Option Char)
    (fill : Char) : Prop where
  irrefl : ∀ c, ¬ before c c
  fill_mem : member fill = true
  fill_first : ∀ c, member c = true → c = fill ∨ before fill c
  next : ∀ c d, member c = true → step c = some d → member d = true ∧ before c d ∧
    ∀ e, member e = true → before c e → e = d ∨ before d e
  last : ∀ c, member c = true → step c = none → ∀ e, member e = true → ¬ before c e

theorem eq_iff_toNat_eq {c d : Char} : c = d ↔ c.toNat = d.toNat := Char.toNat_inj.symm

theorem lt_iff_toNat_lt {c d : Char} : c < d ↔ c.toNat < d.toNat := Iff.rfl

theorem le_iff_toNat_le {c d : Char} : c ≤ d ↔ c.toNat ≤ d.toNat := Iff.rfl

theorem toNat_ofNat_of_lt {n : Nat} (h : n < 0xD800) : (Char.ofNat n).toNat = n := by
  have hvalid : n.isValidChar := .inl h
  rw [Char.ofNat, dif_pos hvalid]
  rfl

theorem toNat_le_of_contains {a : Alphabet} {c : Char} (h : a.contains c = true) :
    c.toNat ≤ 126 := by
  cases a <;> simp [contains, ranges, le_iff_toNat_le] at h <;> omega

/-- The next character is the least greater one. -/
theorem steps_successor (a : Alphabet) : Steps a.contains (· < ·) a.successor a.least where
  irrefl := Char.lt_irrefl
  fill_mem := by cases a <;> decide
  fill_first := by
    intro c hc
    cases a <;>
      simp [contains, ranges, least, eq_iff_toNat_eq, lt_iff_toNat_lt, le_iff_toNat_le] at hc ⊢ <;>
      omega
  next := by
    intro c d hc hd
    have hsmall := toNat_le_of_contains hc
    have hnext : (Char.ofNat (c.toNat + 1)).toNat = c.toNat + 1 := toNat_ofNat_of_lt (by omega)
    cases a <;>
      simp [contains, ranges, eq_iff_toNat_eq, lt_iff_toNat_lt, le_iff_toNat_le, successor,
        nextIn] at hc hd ⊢ <;>
      repeat' split at hd
    -- in each branch that has a next character, `hd` says which one it is
    all_goals
      simp [eq_iff_toNat_eq, hnext] at hd
      try grind
  last := by
    intro c hc hnone e he
    cases a <;>
      simp [contains, ranges, lt_iff_toNat_lt, le_iff_toNat_le, successor, nextIn]
        at hc hnone he ⊢ <;>
      grind

/-- The previous character is the greatest smaller one. -/
theorem steps_predecessor (a : Alphabet) :
    Steps a.contains (fun c d => d < c) a.predecessor a.greatest where
  irrefl := Char.lt_irrefl
  fill_mem := by cases a <;> decide
  fill_first := by
    intro c hc
    cases a <;>
      simp [contains, ranges, greatest, eq_iff_toNat_eq, lt_iff_toNat_lt, le_iff_toNat_le]
        at hc ⊢ <;>
      omega
  next := by
    intro c d hc hd
    have hsmall := toNat_le_of_contains hc
    have hprevious : (Char.ofNat (c.toNat - 1)).toNat = c.toNat - 1 :=
      toNat_ofNat_of_lt (by omega)
    cases a <;>
      simp [contains, ranges, eq_iff_toNat_eq, lt_iff_toNat_lt, le_iff_toNat_le, predecessor,
        previousIn] at hc hd ⊢ <;>
      repeat' split at hd
    all_goals
      simp [eq_iff_toNat_eq, hprevious] at hd
      try grind
  last := by
    intro c hc hnone e he
    cases a <;>
      simp [contains, ranges, lt_iff_toNat_lt, le_iff_toNat_le, predecessor, previousIn]
        at hc hnone he ⊢ <;>
      grind

/-! ## Steps between texts -/

section

variable {member : Char → Bool} {before : Char → Char → Prop} {step : Char → Option Char}
  {fill : Char}

/-- The text of the first character comes before all others of its width. -/
theorem Steps.fill_eq_or_lex (h : Steps member before step fill) :
    ∀ (cs es : List Char), es.length = cs.length → es.all member = true →
      es = cs.map (fun _ => fill) ∨ List.Lex before (cs.map fun _ => fill) es
  | [], [], _, _ => .inl rfl
  | c :: cs, e :: es, hlen, hes => by
    rw [List.all_cons, Bool.and_eq_true] at hes
    rcases h.fill_first e hes.1 with hfill | hbefore
    · rcases h.fill_eq_or_lex cs es (by simpa using hlen) hes.2 with heq | hlex
      · left
        rw [List.map_cons, ← heq, hfill]
      · right
        rw [List.map_cons, hfill]
        exact .cons hlex
    · exact .inr (.rel hbefore)

/-- A text that cannot be stepped is the last of its width. -/
theorem Steps.stepWith_eq_none (h : Steps member before step fill) :
    ∀ (cs es : List Char), cs.all member = true → stepWith step fill cs = none →
      es.length = cs.length → es.all member = true → ¬ List.Lex before cs es
  | [], [], _, _, _, _ => nofun
  | c :: cs, e :: es, hcs, hnone, hlen, hes => by
    rw [List.all_cons, Bool.and_eq_true] at hcs hes
    rw [stepWith] at hnone
    split at hnone
    · cases hnone
    · rename_i hrest
      rw [Option.map_eq_none_iff] at hnone
      intro hlex
      cases hlex with
      | rel hbefore => exact h.last c hcs.1 hnone e hes.1 hbefore
      | cons hlex => exact h.stepWith_eq_none cs es hcs.2 hrest (by simpa using hlen) hes.2 hlex

/-- The text after a given one: it keeps the width, comes later, and is the first of
    those that do. -/
theorem Steps.stepWith_eq_some (h : Steps member before step fill) :
    ∀ (cs ds : List Char), cs.all member = true → stepWith step fill cs = some ds →
      ds.length = cs.length ∧ ds.all member = true ∧ List.Lex before cs ds ∧
        ∀ es : List Char, es.length = cs.length → es.all member = true → List.Lex before cs es →
          es = ds ∨ List.Lex before ds es
  | c :: cs, ds, hcs, hsome => by
    rw [List.all_cons, Bool.and_eq_true] at hcs
    rw [stepWith] at hsome
    split at hsome
    · -- the step is made further behind: this character stays as it is
      rename_i rest hrest
      cases hsome
      obtain ⟨hlen, hmem, hlex, hfirst⟩ := h.stepWith_eq_some cs rest hcs.2 hrest
      refine ⟨by simp [hlen], by simp [hcs.1, hmem], .cons hlex, ?_⟩
      intro es hes hesmem heslex
      cases heslex with
      | rel hbefore => exact .inr (.rel hbefore)
      | cons heslex =>
        rw [List.all_cons, Bool.and_eq_true] at hesmem
        rcases hfirst _ (by simpa using hes) hesmem.2 heslex with rfl | hlater
        · exact .inl rfl
        · exact .inr (.cons hlater)
    · -- nothing behind can be stepped: this character is, and what is behind starts over
      rename_i hrest
      obtain ⟨d, hd, rfl⟩ := Option.map_eq_some_iff.1 hsome
      obtain ⟨hmem, hbefore, hfirst⟩ := h.next c d hcs.1 hd
      refine ⟨by simp, by simp [hmem, h.fill_mem], .rel hbefore, ?_⟩
      intro es hes hesmem heslex
      cases heslex with
      | cons heslex =>
        -- what is behind was the last text of its width
        rw [List.all_cons, Bool.and_eq_true] at hesmem
        have hlast := h.stepWith_eq_none cs _ hcs.2 hrest (by simpa using hes) hesmem.2
        exact absurd heslex hlast
      | rel hlater =>
        rw [List.all_cons, Bool.and_eq_true] at hesmem
        rcases hfirst _ hesmem.1 hlater with rfl | hlater
        · rcases h.fill_eq_or_lex cs _ (by simpa using hes) hesmem.2 with rfl | hlex
          · exact .inl rfl
          · exact .inr (.cons hlex)
        · exact .inr (.rel hlater)

end

/-- Texts of one width compare the other way round when their characters do. -/
theorem lex_flip : ∀ {cs ds : List Char}, cs.length = ds.length →
    (List.Lex (fun c d => d < c) cs ds ↔ ds < cs)
  | [], [], _ => by simp
  | c :: cs, d :: ds, h => by
    have ih : List.Lex (fun c d => d < c) cs ds ↔ ds < cs := lex_flip (by simpa using h)
    rw [List.cons_lex_cons_iff, List.cons_lt_cons_iff, ih, eq_comm]

/-! ## Neighbours of values -/

/-- Whether a text consists of characters of the alphabet. Unlike a value it may be
    empty. -/
def isOver (a : Alphabet) (text : String) : Bool := text.toList.all a.contains

/-- A value is stepped to the first text of its width that comes after it. -/
theorem Steps.stepValue_eq_some {a : Alphabet} {before : Char → Char → Prop}
    {step : Char → Option Char} {fill : Char} (h : Steps a.contains before step fill)
    {value next : String}
    (hnext : (if a.isValue value.toList then
      (stepWith step fill value.toList).map String.ofList else none) = some next) :
    next.length = value.length ∧ a.isOver next = true ∧
      List.Lex before value.toList next.toList ∧
      ∀ other : String, other.length = value.length → a.isOver other = true →
        List.Lex before value.toList other.toList →
          other = next ∨ List.Lex before next.toList other.toList := by
  split at hnext
  · rename_i hvalue
    rw [isValue, Bool.and_eq_true] at hvalue
    obtain ⟨ds, hds, rfl⟩ := Option.map_eq_some_iff.1 hnext
    obtain ⟨hlen, hmem, hlex, hfirst⟩ := h.stepWith_eq_some value.toList ds hvalue.2 hds
    rw [isOver, String.length_ofList, String.toList_ofList, ← String.length_toList]
    refine ⟨hlen, hmem, hlex, ?_⟩
    intro other hother hover hlater
    have hotherlen : other.toList.length = value.toList.length := by
      rw [String.length_toList, hother]
    rcases hfirst other.toList hotherlen hover hlater with heq | hlater
    · left
      rw [← heq, String.ofList_toList]
    · exact .inr hlater
  · cases hnext

/-- The next value: it has the same width, is greater, and no greater value of this
    width is smaller. -/
theorem increment_eq_some {a : Alphabet} {value next : String} (h : a.increment value = some next) :
    next.length = value.length ∧ a.isOver next = true ∧ value < next ∧
      ∀ other : String, other.length = value.length → a.isOver other = true → value < other →
        next ≤ other := by
  obtain ⟨hlen, hover, hlex, hfirst⟩ := a.steps_successor.stepValue_eq_some h
  refine ⟨hlen, hover, String.lt_iff.2 hlex, ?_⟩
  intro other hother hover hgreater
  rcases hfirst other hother hover (String.lt_iff.1 hgreater) with rfl | hlater
  · exact String.le_refl other
  · exact Std.le_of_lt (String.lt_iff.2 hlater)

/-- The previous value: it has the same width, is smaller, and no smaller value of
    this width is greater. -/
theorem decrement_eq_some {a : Alphabet} {value previous : String}
    (h : a.decrement value = some previous) :
    previous.length = value.length ∧ a.isOver previous = true ∧ previous < value ∧
      ∀ other : String, other.length = value.length → a.isOver other = true → other < value →
        other ≤ previous := by
  obtain ⟨hlen, hover, hlex, hfirst⟩ := a.steps_predecessor.stepValue_eq_some h
  -- the steps go down, so their order is turned round; that needs texts of one width
  have flip : ∀ {v w : String}, v.length = w.length →
      (List.Lex (fun c d => d < c) v.toList w.toList ↔ w < v) := by
    intro v w hvw
    rw [String.lt_iff, lex_flip (by rw [String.length_toList, String.length_toList, hvw])]
  refine ⟨hlen, hover, (flip hlen.symm).1 hlex, ?_⟩
  intro other hother hover hsmaller
  rcases hfirst other hother hover ((flip hother.symm).2 hsmaller) with rfl | hlater
  · exact String.le_refl other
  · exact Std.le_of_lt ((flip (by rw [hlen, hother])).1 hlater)

end IndexQuery.Alphabet
