import IndexQuery.Proofs.Regex.Spans

/-! # Sequences and repetitions

    A sequence fits a stretch part by part. A part that is repeated fits where its stretch
    begins, unless the repetition allows that it does not occur at all.

    * `spansAll_of_ofSeq`: a stretch of a sequence is divided among its parts.
    * `prefix_parts_ofSeq`: the parts of a sequence are found again.
    * `spansAll_literal_iff`: characters fit where they stand.
    * `exists_spans_bare`: what is repeated fits where the repetition begins.
-/

namespace IndexQuery.Regex

/-! ## Sequences -/

/-- The parts of a sequence. -/
def parts : Regex → List Regex
  | .seq a b => a :: b.parts
  | r => [r]

/-- Whether an expression is a sequence. -/
def isSeq : Regex → Bool
  | .seq _ _ => true
  | _ => false

/-- Expressions fit a stretch one after the other. -/
def SpansAll (text : List Char) : List Regex → Nat → Nat → Prop
  | [], i, j => i = j
  | r :: rs, i, j => ∃ k, r.Spans text i k ∧ SpansAll text rs k j

section Sequence

variable {text : List Char} {r : Regex} {rs : List Regex} {i j : Nat}

theorem spansAll_of_ofSeq (h : (ofSeq rs).Spans text i j) : SpansAll text rs i j := by
  induction rs generalizing i with
  | nil => exact h
  | cons r rs ih =>
    cases rs with
    | nil => exact ⟨j, h, rfl⟩
    | cons r' rs =>
      obtain ⟨k, hr, hrest⟩ := h
      exact ⟨k, hr, ih hrest⟩

theorem spansAll_append {rs' : List Regex} (h : SpansAll text (rs ++ rs') i j) :
    ∃ k, SpansAll text rs i k ∧ SpansAll text rs' k j := by
  induction rs generalizing i with
  | nil => exact ⟨i, rfl, h⟩
  | cons r rs ih =>
    obtain ⟨k, hr, hrest⟩ := h
    obtain ⟨l, hrs, hrs'⟩ := ih hrest
    exact ⟨l, ⟨k, hr, hrs⟩, hrs'⟩

theorem parts_of_not_isSeq (h : r.isSeq = false) : r.parts = [r] := by
  cases r with
  | seq a b => exact absurd h.symm Bool.false_ne_true
  | _ => rfl

/-- The first parts of a sequence are found again, if they are no sequences themselves. -/
theorem prefix_parts_ofSeq (h : ∀ r ∈ rs, r.isSeq = false) (more : List Regex) :
    rs <+: (ofSeq (rs ++ more)).parts := by
  induction rs with
  | nil => exact List.nil_prefix
  | cons r rs ih =>
    obtain ⟨hr, hrs⟩ := List.forall_mem_cons.1 h
    rw [List.cons_append]
    cases hrest : rs ++ more with
    | nil =>
      obtain ⟨rfl, -⟩ := List.append_eq_nil_iff.1 hrest
      exact ⟨[], (parts_of_not_isSeq hr).symm⟩
    | cons r' rest =>
      have hparts : (ofSeq (r :: r' :: rest)).parts = r :: (ofSeq (r' :: rest)).parts := rfl
      rw [hparts, ← hrest]
      exact List.prefix_cons_iff.2 (.inr ⟨rs, rfl, ih hrs⟩)

/-! ## Characters -/

/-- The expressions of characters that stand for themselves. -/
def literals (cs : List Char) : List Regex := cs.map fun c => .chars (.single c)

theorem isSeq_of_mem_literals (cs : List Char) : ∀ r ∈ literals cs, r.isSeq = false :=
  List.forall_mem_map.2 fun _ _ => rfl

theorem spans_single_iff {c : Char} :
    (Regex.chars (.single c)).Spans text i j ↔ text[i]? = some c ∧ j = i + 1 := by
  simp [Spans]

/-- Characters fit where they stand in the text. -/
theorem spansAll_literals {cs : List Char} (h : SpansAll text (literals cs) i j) :
    text.drop i = cs ++ text.drop j := by
  induction cs generalizing i with
  | nil =>
    cases h
    rfl
  | cons c cs ih =>
    obtain ⟨k, hc, hrest⟩ := h
    obtain ⟨hchar, rfl⟩ := spans_single_iff.1 hc
    obtain ⟨hi, rfl⟩ := List.getElem?_eq_some_iff.1 hchar
    rw [List.drop_eq_getElem_cons hi, ih hrest, List.cons_append]

end Sequence

/-! ## Repetitions -/

/-- What a repetition repeats, however often. -/
def bare : Regex → Regex
  | .repeated r _ _ _ => r.bare
  | r => r

/-- What stands in the group that an expression is or repeats. -/
def content (r : Regex) : Regex :=
  match r.bare with
  | .group _ inner => inner
  | inner => inner

/-- Whether a repetition allows that what it repeats does not occur. -/
def isOptional : Regex → Bool
  | .repeated r least _ _ => least == 0 || r.isOptional
  | _ => false

theorem not_isSeq_of_bare {r : Regex} (h : r.bare.isSeq = false) : r.isSeq = false := by
  cases r with
  | seq a b => exact h
  | _ => rfl

/-- What has to occur fits where its repetition begins. -/
theorem exists_spans_bare {text : List Char} {r : Regex} {i j : Nat} (hr : r.isOptional = false)
    (h : r.Spans text i j) : ∃ k, r.bare.Spans text i k := by
  induction r generalizing j with
  | repeated r least most short ih =>
    simp only [isOptional, Bool.or_eq_false_iff, beq_eq_false_iff_ne] at hr
    obtain ⟨n, hn, -, hrounds⟩ := h
    cases n with
    | zero => exact absurd (Nat.le_zero.1 hn) hr.1
    | succ n =>
      obtain ⟨k, hk, -⟩ := hrounds
      exact ih hr.2 hk
  | _ => exact ⟨j, h⟩

/-! ## Anchors -/

section Anchor

variable {text : List Char} {i j : Nat}

theorem eq_zero_of_textStart (h : (Regex.look .textStart).Spans text i j) : i = 0 ∧ j = 0 := by
  obtain ⟨⟨before, after, hbefore, -, hholds⟩, rfl⟩ := h
  cases i with
  | zero => exact ⟨rfl, rfl⟩
  | succ i =>
    simp only [Assertion.holdsBetween, Option.isNone_iff_eq_none] at hholds
    subst hholds
    simp at hbefore

theorem drop_of_textEnd (h : (Regex.look .textEnd).Spans text i j) : text.drop i = [] := by
  obtain ⟨⟨before, after, -, hafter, hholds⟩, rfl⟩ := h
  simp only [Assertion.holdsBetween, Option.isNone_iff_eq_none] at hholds
  subst hholds
  rw [List.drop_eq_nil_iff]
  by_cases hlt : i < text.length
  · rw [List.getElem?_append_left (by simpa using hlt)] at hafter
    simp at hafter
  · exact Nat.le_of_not_lt hlt

end Anchor

end IndexQuery.Regex
