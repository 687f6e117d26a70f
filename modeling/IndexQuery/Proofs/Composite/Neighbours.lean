import IndexQuery.Proofs.Composite.Alphabet
import Mathlib.Order.Bounds.Defs

/-! # Stepping is exact

    Among the texts of one width over an alphabet, stepping a value up gives the least of
    the greater ones and stepping it down the greatest of the smaller ones. It gives
    nothing only where there is none, and for what is no value.

    * `Alphabet.peers`: the texts that a value is compared with.
    * `Alphabet.increment_eq_some_iff`, `Alphabet.increment_eq_none_iff`, and the same for
      `decrement`: when there is a neighbour, and which one.
    * `Alphabet.neighbours`: all of these, and that the two directions undo each other.
-/

namespace IndexQuery.Alphabet

variable {a : Alphabet} {s t : String}

/-- The texts over the alphabet that are as wide as a given one. -/
def peers (a : Alphabet) (s : String) : Set String :=
  {t | t.length = s.length ∧ a.isOver t = true}

theorem isValue_iff : a.isValue s.toList = true ↔ s ≠ "" ∧ a.isOver s = true := by
  simp [isValue, isOver]

/-! ## Where there is no neighbour -/

/-- A value that cannot be stepped is the last one of its width. -/
theorem Steps.stepValue_eq_none {before : Char → Char → Prop} {step : Char → Option Char}
    {fill : Char} (h : Steps a.contains before step fill) (hvalue : a.isValue s.toList = true)
    (hnone : (if a.isValue s.toList then
      (stepWith step fill s.toList).map String.ofList else none) = none) :
    ∀ t ∈ a.peers s, ¬ List.Lex before s.toList t.toList := by
  rw [if_pos hvalue, Option.map_eq_none_iff] at hnone
  rw [isValue, Bool.and_eq_true] at hvalue
  intro t ht
  have hlen : t.toList.length = s.toList.length := by
    rw [String.length_toList, String.length_toList, ht.1]
  exact h.stepWith_eq_none s.toList t.toList hvalue.2 hnone hlen ht.2

theorem le_of_increment_eq_none (hvalue : a.isValue s.toList = true)
    (hnone : a.increment s = none) : ∀ t ∈ a.peers s, t ≤ s := by
  intro t ht
  have hlex := a.steps_successor.stepValue_eq_none hvalue hnone t ht
  exact fun hlt => hlex (String.lt_iff.1 hlt)

theorem le_of_decrement_eq_none (hvalue : a.isValue s.toList = true)
    (hnone : a.decrement s = none) : ∀ t ∈ a.peers s, s ≤ t := by
  intro t ht hlt
  have hlex := a.steps_predecessor.stepValue_eq_none hvalue hnone t ht
  have hlen : s.toList.length = t.toList.length := by
    rw [String.length_toList, String.length_toList, ht.1]
  exact hlex ((lex_flip hlen).2 (String.lt_iff.1 hlt))

/-- What has a neighbour is a value. -/
theorem isValue_of_increment (h : a.increment s = some t) : a.isValue s.toList = true := by
  unfold increment at h
  split at h
  · assumption
  · cases h

theorem isValue_of_decrement (h : a.decrement s = some t) : a.isValue s.toList = true := by
  unfold decrement at h
  split at h
  · assumption
  · cases h

/-! ## Neighbours -/

theorem increment_eq_some_iff : a.increment s = some t ↔
    a.isValue s.toList = true ∧ IsLeast {u ∈ a.peers s | s < u} t := by
  constructor
  · intro h
    obtain ⟨hlen, hover, hlt, hleast⟩ := increment_eq_some h
    exact ⟨isValue_of_increment h, ⟨⟨hlen, hover⟩, hlt⟩,
      fun u ⟨⟨hulen, huover⟩, hu⟩ => hleast u hulen huover hu⟩
  · rintro ⟨hvalue, ⟨hpeer, hlt⟩, hleast⟩
    cases h : a.increment s with
    | none => exact absurd hlt (le_of_increment_eq_none hvalue h t hpeer)
    | some next =>
      obtain ⟨hlen, hover, hnext, hfirst⟩ := increment_eq_some h
      have hle : next ≤ t := hfirst t hpeer.1 hpeer.2 hlt
      have hge : t ≤ next := hleast ⟨⟨hlen, hover⟩, hnext⟩
      rw [String.le_antisymm hle hge]

theorem decrement_eq_some_iff : a.decrement s = some t ↔
    a.isValue s.toList = true ∧ IsGreatest {u ∈ a.peers s | u < s} t := by
  constructor
  · intro h
    obtain ⟨hlen, hover, hlt, hgreatest⟩ := decrement_eq_some h
    exact ⟨isValue_of_decrement h, ⟨⟨hlen, hover⟩, hlt⟩,
      fun u ⟨⟨hulen, huover⟩, hu⟩ => hgreatest u hulen huover hu⟩
  · rintro ⟨hvalue, ⟨hpeer, hlt⟩, hgreatest⟩
    cases h : a.decrement s with
    | none => exact absurd hlt (le_of_decrement_eq_none hvalue h t hpeer)
    | some previous =>
      obtain ⟨hlen, hover, hprevious, hfirst⟩ := decrement_eq_some h
      have hle : t ≤ previous := hfirst t hpeer.1 hpeer.2 hlt
      have hge : previous ≤ t := hgreatest ⟨⟨hlen, hover⟩, hprevious⟩
      rw [String.le_antisymm hge hle]

theorem increment_eq_none_iff : a.increment s = none ↔
    a.isValue s.toList = false ∨ IsGreatest (a.peers s) s := by
  constructor
  · intro hnone
    cases hvalue : a.isValue s.toList with
    | false => exact .inl rfl
    | true =>
      exact .inr ⟨⟨rfl, (isValue_iff.1 hvalue).2⟩, le_of_increment_eq_none hvalue hnone⟩
  · rintro (hvalue | ⟨-, hgreatest⟩)
    · rw [increment, hvalue]
      rfl
    · cases h : a.increment s with
      | none => rfl
      | some next =>
        obtain ⟨hlen, hover, hnext, -⟩ := increment_eq_some h
        exact absurd hnext (hgreatest ⟨hlen, hover⟩)

theorem decrement_eq_none_iff : a.decrement s = none ↔
    a.isValue s.toList = false ∨ IsLeast (a.peers s) s := by
  constructor
  · intro hnone
    cases hvalue : a.isValue s.toList with
    | false => exact .inl rfl
    | true =>
      exact .inr ⟨⟨rfl, (isValue_iff.1 hvalue).2⟩, le_of_decrement_eq_none hvalue hnone⟩
  · rintro (hvalue | ⟨-, hleast⟩)
    · rw [decrement, hvalue]
      rfl
    · cases h : a.decrement s with
      | none => rfl
      | some previous =>
        obtain ⟨hlen, hover, hprevious, -⟩ := decrement_eq_some h
        exact absurd hprevious (hleast ⟨hlen, hover⟩)

/-! ## There and back -/

/-- A text as wide as a value is one itself, if it is over the alphabet. -/
theorem isValue_of_mem_peers (hvalue : a.isValue s.toList = true) (ht : t ∈ a.peers s) :
    a.isValue t.toList = true := by
  rw [isValue_iff] at hvalue ⊢
  refine ⟨?_, ht.2⟩
  intro hempty
  have hlen : t.length = s.length := ht.1
  rw [hempty, String.length_empty, eq_comm, String.length_eq_zero_iff] at hlen
  exact hvalue.1 hlen

theorem peers_eq (ht : t ∈ a.peers s) : a.peers t = a.peers s := by
  unfold peers
  rw [ht.1]

/-- The greatest text below the next one is the value itself. -/
theorem decrement_of_increment (h : a.increment s = some t) : a.decrement t = some s := by
  obtain ⟨hvalue, ⟨hpeer, hlt⟩, hleast⟩ := increment_eq_some_iff.1 h
  have hself : s ∈ a.peers s := ⟨rfl, (isValue_iff.1 hvalue).2⟩
  rw [decrement_eq_some_iff, peers_eq hpeer]
  refine ⟨isValue_of_mem_peers hvalue hpeer, ⟨hself, hlt⟩, ?_⟩
  rintro u ⟨hu, hut⟩ hsu
  exact hleast ⟨hu, hsu⟩ hut

theorem increment_of_decrement (h : a.decrement t = some s) : a.increment s = some t := by
  obtain ⟨hvalue, ⟨hpeer, hlt⟩, hgreatest⟩ := decrement_eq_some_iff.1 h
  have hself : t ∈ a.peers t := ⟨rfl, (isValue_iff.1 hvalue).2⟩
  rw [increment_eq_some_iff, peers_eq hpeer]
  refine ⟨isValue_of_mem_peers hvalue hpeer, ⟨hself, hlt⟩, ?_⟩
  rintro u ⟨hu, hsu⟩ hut
  exact hgreatest ⟨hu, hut⟩ hsu

/-- A value steps up to the least greater text of its width over the alphabet, and down to
    the greatest smaller one. The greatest value has no next one, the least no previous
    one, and what is empty or holds another character has neither. The two directions undo
    each other. -/
theorem neighbours (a : Alphabet) (s t : String) :
    (a.increment s = some t ↔
      (s ≠ "" ∧ a.isOver s = true) ∧ IsLeast {u ∈ a.peers s | s < u} t) ∧
    (a.increment s = none ↔
      ¬ (s ≠ "" ∧ a.isOver s = true) ∨ IsGreatest (a.peers s) s) ∧
    (a.decrement s = some t ↔
      (s ≠ "" ∧ a.isOver s = true) ∧ IsGreatest {u ∈ a.peers s | u < s} t) ∧
    (a.decrement s = none ↔
      ¬ (s ≠ "" ∧ a.isOver s = true) ∨ IsLeast (a.peers s) s) ∧
    (a.increment s = some t ↔ a.decrement t = some s) := by
  rw [← isValue_iff, Bool.not_eq_true]
  exact ⟨increment_eq_some_iff, increment_eq_none_iff, decrement_eq_some_iff,
    decrement_eq_none_iff, decrement_of_increment, increment_of_decrement⟩

end IndexQuery.Alphabet
