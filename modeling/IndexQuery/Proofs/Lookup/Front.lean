import IndexQuery.Lookup.Basic
import IndexQuery.Proofs.Store.Entry

/-! # The stretch of the index for a pattern

    A value that a pattern accepts starts with the literal front of the pattern. The stretch
    for the pattern begins with the front and ends in U+0001 behind the front and the
    greatest character. A qualifier goes on with NUL where its value ends, so that the
    stretch holds what ends with the front or with that character, and what goes on with a
    smaller one.

    * `Lookup.contains_scanRange_iff`: of the values that start with the front, the stretch
      leaves out just those that go on with the greatest character and then with another
      character than NUL.
-/

namespace IndexQuery

/-! ## Values behind a front -/

namespace LiteralFront

variable {f : LiteralFront} {value : String}

/-- A value starts with the front, or is the front where the pattern is nothing else. -/
def Fits (f : LiteralFront) (value : String) : Prop :=
  if f.complete then value.toList = f.text else f.text <+: value.toList

instance : Decidable (f.Fits value) := by
  unfold Fits
  infer_instance

/-- A value goes on behind the front with the greatest character, and does not end there. -/
def IsOverrun (f : LiteralFront) (value : String) : Prop :=
  f.complete = false ∧ ∃ c rest, c ≠ nul ∧ value.toList = f.text ++ greatest :: c :: rest

theorem Fits.prefix (h : f.Fits value) : f.text <+: value.toList := by
  unfold Fits at h
  split at h
  · exact ⟨[], by rw [List.append_nil, h]⟩
  · exact h

/-! ## The order of what follows -/

theorem le_greatest (c : Char) : c ≤ greatest := by
  have hvalid := c.valid
  simp only [UInt32.isValidChar, Nat.isValidChar] at hvalid
  show c.val.toNat ≤ 0x10FFFF
  omega

/-- Only text that starts with NUL, or has no character, comes before U+0001. -/
theorem cons_lt_afterSeparator_iff {c : Char} {cs : List Char} : c :: cs < ['\x01'] ↔ c = nul := by
  have hnone : ¬ cs < [] := List.not_lt_nil cs
  have hc : c < '\x01' ↔ c = nul := by
    constructor
    · intro hlt
      have hzero : c.toNat = nul.toNat := Nat.lt_one_iff.1 hlt
      exact Char.toNat_inj.1 hzero
    · rintro rfl
      decide
  rw [List.cons_lt_cons_iff, hc]
  simp [hnone]

/-- Only text that starts with the greatest character may come behind that character. -/
theorem cons_lt_greatest_iff {c : Char} {cs : List Char} :
    c :: cs < [greatest, '\x01'] ↔ (c = greatest → cs < ['\x01']) := by
  rw [List.cons_lt_cons_iff]
  by_cases hc : c = greatest
  · have hirrefl : ¬ c < greatest := by
      rw [hc]
      exact Char.lt_irrefl _
    rw [or_iff_right hirrefl, and_iff_right hc, imp_iff_right hc]
  · have hlt : c < greatest := Std.lt_of_le_of_ne (le_greatest c) hc
    exact iff_of_true (.inl hlt) fun heq => absurd heq hc

/-- What a value goes on with, continued with NUL, comes before the greatest character and
    U+0001 unless it starts with the greatest character and another one than NUL. -/
theorem append_nul_lt_greatest_iff {rest tail : List Char} :
    rest ++ nul :: tail < [greatest, '\x01'] ↔
      ¬ ∃ c cs, c ≠ nul ∧ rest = greatest :: c :: cs := by
  match rest with
  | [] =>
    have hlt : nul :: tail < [greatest, '\x01'] := .rel (by decide)
    simpa using hlt
  | [c] =>
    have hlt : c :: nul :: tail < [greatest, '\x01'] :=
      cons_lt_greatest_iff.2 fun _ => cons_lt_afterSeparator_iff.2 rfl
    simpa using hlt
  | c :: d :: cs =>
    -- only a text of two characters or more can go beyond the limit
    have hiff : c :: d :: (cs ++ nul :: tail) < [greatest, '\x01'] ↔ (c = greatest → d = nul) := by
      rw [cons_lt_greatest_iff, cons_lt_afterSeparator_iff]
    rw [List.cons_append, List.cons_append, hiff]
    constructor
    · rintro hnul ⟨c', cs', hne, heq⟩
      cases heq
      exact hne (hnul rfl)
    · rintro hno rfl
      by_contra hne
      exact hno ⟨d, cs, hne, rfl⟩

/-! ## The bounds -/

/-- No bound is greater than a value that starts with the front. -/
theorem Fits.bounds_le (h : f.Fits value) : f.bounds.1 ≤ value :=
  Text.le_of_prefix (by rw [bounds, String.toList_ofList]; exact h.prefix)

/-- A value that starts with the front, continued with NUL, comes before the greater bound
    and U+0001 unless the value overruns that bound. -/
theorem Fits.append_nul_lt_iff (h : f.Fits value) (tail : List Char) :
    value.toList ++ nul :: tail < f.bounds.2.toList ++ ['\x01'] ↔ ¬ f.IsOverrun value := by
  unfold bounds IsOverrun
  rw [String.toList_ofList]
  by_cases hcomplete : f.complete = true
  · have hvalue : value.toList = f.text := by
      unfold Fits at h
      rwa [if_pos hcomplete] at h
    rw [if_pos hcomplete, hvalue]
    simp [hcomplete, Text.append_nul_lt]
  · -- the front drops out on both sides
    obtain ⟨rest, hrest⟩ := h.prefix
    rw [if_neg hcomplete, ← hrest, List.append_assoc, List.append_assoc,
      Text.append_lt_append_left_iff]
    simp only [List.append_cancel_left_eq, hcomplete, true_and]
    exact append_nul_lt_greatest_iff

end LiteralFront

/-! ## The stretch -/

namespace Lookup

variable (l : Lookup) {pattern : Pattern} {value : String}

/-- The stretch for a pattern holds the entries of all values that start with the literal
    front, but for those that go on with the greatest character and do not end there. -/
theorem contains_scanRange_iff (timestamp : Int64) (htest : l.test = .regex pattern)
    (hfits : pattern.front.Fits value) :
    l.scanRange.contains (l.record.fieldKey l.field value timestamp) = true ↔
      ¬ pattern.front.IsOverrun value := by
  have hrange : l.scanRange =
      l.record.fieldRange l.field pattern.front.bounds.1 pattern.front.bounds.2 := by
    unfold scanRange ValueTest.bounds
    rw [htest]
  let e : FieldEntry := ⟨value, l.record.datatype, l.record.uid⟩
  have hafter : pattern.front.bounds.1 ≤ e.qualifier :=
    Std.le_trans hfits.bounds_le e.value_le_qualifier
  have hbefore : e.qualifier < pattern.front.bounds.2 ++ RecordId.afterSeparator ↔
      ¬ pattern.front.IsOverrun value := by
    rw [String.lt_iff, e.toList_qualifier, String.toList_append]
    exact hfits.append_nul_lt_iff _
  rw [hrange, RecordId.fieldRange, KeyRange.contains_qualifiers, ← hbefore]
  simp [RecordId.fieldKey, e, hafter]

/-! ### Joined values -/

/-- The pattern of the values that start with `x`, once or more, and go on with `y` behind the
    greatest character. -/
def joinedPattern : Pattern where
  text := String.ofList ['x', '+', LiteralFront.greatest, 'y']
  regex := (Regex.ofPattern? CharSet.ofProperty?
    (String.ofList ['x', '+', LiteralFront.greatest, 'y'])).get (by decide)
  compiled := ⟨CharSet.ofProperty?, (Option.some_get _).symm⟩

/-- The look-up of these values. -/
def joinedLookup : Lookup :=
  { field := "A", test := .regex joinedPattern, record := ⟨"20240101_0", "event", "uid.1"⟩ }

/-- The front is `x`. The values `x` and `y`, joined by a comma, lie in the stretch. -/
theorem contains_scanRange_joinedLookup :
    joinedLookup.test = .regex joinedPattern ∧ joinedPattern.front.Fits "x,y" ∧
      joinedLookup.scanRange.contains (joinedLookup.record.fieldKey "A" "x,y" 1) = true := by
  have htest : joinedLookup.test = .regex joinedPattern := rfl
  have hfits : joinedPattern.front.Fits "x,y" := by decide
  have hwithin : ¬ joinedPattern.front.IsOverrun "x,y" := by
    rintro ⟨-, c, rest, -, hvalue⟩
    cases hvalue
  exact ⟨htest, hfits, (joinedLookup.contains_scanRange_iff 1 htest hfits).2 hwithin⟩

/-- The same values, joined by the greatest character, do not, although the pattern asks for
    just these. -/
theorem not_forall_contains_scanRange :
    ¬ ∀ (l : Lookup) (pattern : Pattern) (value : String) (timestamp : Int64),
      l.test = .regex pattern → nul ∉ l.record.datatype.toList → nul ∉ l.record.uid.toList →
        pattern.front.Fits value →
          l.scanRange.contains (l.record.fieldKey l.field value timestamp) = true := by
  intro hall
  let value := String.ofList ['x', LiteralFront.greatest, 'y']
  have hfits : joinedPattern.front.Fits value := by decide
  have hcontains := hall joinedLookup joinedPattern value 1 rfl (by decide) (by decide) hfits
  have hhidden : joinedLookup.scanRange.contains
      (joinedLookup.record.fieldKey "A" value 1) = false := by decide
  exact Bool.false_ne_true (hhidden.symm.trans hcontains)

end Lookup

end IndexQuery
