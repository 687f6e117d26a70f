/-! # The order of texts

    Texts compare character by character, so that a common front drops out and the first
    difference decides.
-/

namespace IndexQuery.Text

/-- Where texts of one length differ, what follows does not count. -/
theorem append_lt_append_of_lt {cs ds : List Char} (hlen : cs.length = ds.length)
    (hlt : cs < ds) (es fs : List Char) : cs ++ es < ds ++ fs := by
  induction hlt with
  | nil => simp at hlen
  | rel h => exact .rel h
  | cons _ ih => exact .cons (ih (by simpa using hlen))

/-- A common front does not count. -/
theorem append_lt_append_left_iff (cs : List Char) {ds es : List Char} :
    cs ++ ds < cs ++ es ↔ ds < es := by
  induction cs with
  | nil => rfl
  | cons c cs ih => rw [List.cons_append, List.cons_append, List.cons_lt_cons_self, ih]

/-- A smaller text begins the greater one, or else what follows does not count. -/
theorem eq_append_or_append_lt {cs ds : List Char} (h : cs < ds) :
    (∃ d rest, ds = cs ++ d :: rest) ∨ ∀ es fs, cs ++ es < ds ++ fs := by
  induction h with
  | nil => exact .inl ⟨_, _, rfl⟩
  | rel h => exact .inr fun es fs => .rel h
  | cons _ ih =>
    rcases ih with ⟨d, rest, rfl⟩ | hlt
    · exact .inl ⟨d, rest, rfl⟩
    · exact .inr fun es fs => .cons (hlt es fs)

/-- A text does not come behind those that begin with it. -/
theorem le_of_prefix {a b : String} (h : a.toList <+: b.toList) : a ≤ b := by
  obtain ⟨rest, hrest⟩ := h
  show ¬ b < a
  rw [String.lt_iff, ← hrest]
  exact List.le_append_left

end IndexQuery.Text
