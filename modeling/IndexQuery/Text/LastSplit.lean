/-! # Splitting at the last separator

    Text that was put in front of a separator may hold the separator itself when
    what follows does not: the last one is where the two meet.

    * `splitLast?_eq_some_iff` says exactly when text splits, and into what.
-/

namespace IndexQuery.Text

/-- The parts before and after the last separator. -/
def splitLast? (sep : Char) : List Char → Option (List Char × List Char)
  | [] => none
  | c :: rest =>
    match splitLast? sep rest with
    | some (before, after) => some (c :: before, after)
    | none => if c = sep then some ([], rest) else none

theorem splitLast?_eq_none_iff {sep : Char} {l : List Char} :
    splitLast? sep l = none ↔ sep ∉ l := by
  induction l with
  | nil => simp [splitLast?]
  | cons c rest ih =>
    unfold splitLast?
    split
    · rename_i h
      have : sep ∈ rest := by
        by_cases hs : sep ∈ rest
        · exact hs
        · simp [ih.2 hs] at h
      simp [this]
    · rename_i h
      have hs := ih.1 h
      by_cases hc : c = sep
      · simp [hc]
      · simp [hc, hs, Ne.symm hc]

/-- Text splits where the part behind the separator holds none. -/
theorem splitLast?_eq_some_iff {sep : Char} {l before after : List Char} :
    splitLast? sep l = some (before, after) ↔ l = before ++ sep :: after ∧ sep ∉ after := by
  induction l generalizing before after with
  | nil => simp [splitLast?]
  | cons c rest ih =>
    cases h : splitLast? sep rest with
    | some parts =>
      obtain ⟨b, a⟩ := parts
      obtain ⟨hrest, ha⟩ := ih.1 h
      simp only [splitLast?, h, Option.some.injEq, Prod.mk.injEq]
      constructor
      · rintro ⟨rfl, rfl⟩
        exact ⟨by simp [hrest], ha⟩
      · rintro ⟨hl, ha'⟩
        -- the separator that was found is the last one, so it cannot be the first character
        cases before with
        | nil =>
          obtain ⟨-, rfl⟩ := List.cons.inj hl
          simp [hrest] at ha'
        | cons d before =>
          obtain ⟨rfl, hrest'⟩ := List.cons.inj hl
          have := ih.2 ⟨hrest', ha'⟩
          rw [h] at this
          simpa using this
    | none =>
      have hs := splitLast?_eq_none_iff.1 h
      simp only [splitLast?, h]
      constructor
      · intro hc
        split at hc
        · rename_i hc'
          obtain ⟨rfl, rfl⟩ : [] = before ∧ rest = after := by simpa using hc
          exact ⟨by simp [hc'], hs⟩
        · simp at hc
      · rintro ⟨hl, ha⟩
        cases before with
        | nil =>
          obtain ⟨rfl, rfl⟩ := List.cons.inj hl
          simp
        | cons d before =>
          obtain ⟨rfl, rfl⟩ := List.cons.inj hl
          simp at hs

end IndexQuery.Text
