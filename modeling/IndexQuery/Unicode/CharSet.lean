/-! # Sets of characters

    A set of characters is the list of its ranges of scalar values, in ascending
    order and apart from each other. Properties of characters are given as such
    sets, and patterns combine them.

    * `contains_single`: a single character is alone in its set.
    * `exists_range_of_contains`: a member lies in one of the ranges.
-/

namespace IndexQuery

/-- A set of characters, as ascending inclusive ranges of scalar values. -/
structure CharSet where
  ranges : List (Nat × Nat)
deriving DecidableEq, Hashable, Repr, Inhabited

namespace CharSet

/-! ## Members -/

/-- Whether a number lies in one of some ascending ranges. -/
def covers : List (Nat × Nat) → Nat → Bool
  | [], _ => false
  | (lo, hi) :: rest, n => lo ≤ n && (n ≤ hi || covers rest n)

/-- Whether a scalar value belongs to the set. -/
def holds (s : CharSet) (n : Nat) : Bool := covers s.ranges n

/-- Whether a character belongs to the set. -/
def contains (s : CharSet) (c : Char) : Bool := s.holds c.toNat

theorem exists_range_of_covers {ranges : List (Nat × Nat)} {n : Nat}
    (h : covers ranges n = true) : ∃ r ∈ ranges, r.1 ≤ n ∧ n ≤ r.2 := by
  induction ranges with
  | nil => simp [covers] at h
  | cons r rest ih =>
    simp only [covers, Bool.and_eq_true, Bool.or_eq_true, decide_eq_true_eq] at h
    rcases h with ⟨hlo, hhi | hrest⟩
    · exact ⟨r, List.mem_cons_self, hlo, hhi⟩
    · obtain ⟨r', hr', hn⟩ := ih hrest
      exact ⟨r', List.mem_cons_of_mem _ hr', hn⟩

theorem exists_range_of_contains {s : CharSet} {c : Char} (h : s.contains c = true) :
    ∃ r ∈ s.ranges, r.1 ≤ c.toNat ∧ c.toNat ≤ r.2 := exists_range_of_covers h

/-- The set without members. -/
def none : CharSet := ⟨[]⟩

/-- A single character. -/
def single (c : Char) : CharSet := ⟨[(c.toNat, c.toNat)]⟩

@[simp] theorem contains_single {c d : Char} : (single c).contains d = true ↔ d = c := by
  simp only [contains, holds, single, covers, Bool.or_false, Bool.and_eq_true,
    decide_eq_true_eq]
  constructor
  · rintro ⟨h, h'⟩
    exact Char.ext (UInt32.toNat_inj.1 (Nat.le_antisymm h' h))
  · rintro rfl
    exact ⟨Nat.le_refl _, Nat.le_refl _⟩

/-- The character of a set that has no other, if the set is so small. -/
def single? (s : CharSet) : Option Char :=
  match s.ranges with
  | [(lo, hi)] => if lo = hi then some (Char.ofNat lo) else Option.none
  | _ => Option.none

/-- Whether all members are ASCII characters. -/
def isAscii (s : CharSet) : Bool := s.ranges.all fun r => r.2 < 0x80

/-! ## Combinations -/

/-- Joins a range with the ascending ranges behind it, as far as they touch. -/
def fuseInto (lo hi : Nat) : List (Nat × Nat) → List (Nat × Nat)
  | [] => [(lo, hi)]
  | (lo', hi') :: rest =>
    if lo' ≤ hi + 1 then fuseInto lo (max hi hi') rest else (lo, hi) :: fuseInto lo' hi' rest

/-- The characters of some ranges, in whatever order they are. -/
def ofRanges (ranges : List (Nat × Nat)) : CharSet :=
  match ranges.mergeSort fun r r' => r.1 ≤ r'.1 with
  | [] => none
  | (lo, hi) :: rest => ⟨fuseInto lo hi rest⟩

/-- The characters of either set. -/
def union (a b : CharSet) : CharSet := ofRanges (a.ranges ++ b.ranges)

/-- What lies between some ascending ranges, from `start` on. -/
def gapsFrom (start : Nat) : List (Nat × Nat) → List (Nat × Nat)
  | [] => if start ≤ 0x10FFFF then [(start, 0x10FFFF)] else []
  | (lo, hi) :: rest =>
    if start < lo then (start, lo - 1) :: gapsFrom (hi + 1) rest else gapsFrom (hi + 1) rest

/-- The numbers in the range of scalar values that no character has. -/
def surrogates : CharSet := ⟨[(0xD800, 0xDFFF)]⟩

/-- The characters that are not in the set. -/
def complement (s : CharSet) : CharSet := ⟨gapsFrom 0 (s.union surrogates).ranges⟩

/-- Every character. -/
def all : CharSet := complement none

/-- The characters of both sets. -/
def inter (a b : CharSet) : CharSet := (a.complement.union b.complement).complement

/-- The characters of the one set that are not in the other. -/
def diff (a b : CharSet) : CharSet := (a.complement.union b).complement

/-- The characters of exactly one of two sets. -/
def symmDiff (a b : CharSet) : CharSet := (a.union b).diff (a.inter b)

/-- The set or, if asked for, its complement. -/
def negatedIf (negated : Bool) (s : CharSet) : CharSet := if negated then s.complement else s

end CharSet

end IndexQuery
