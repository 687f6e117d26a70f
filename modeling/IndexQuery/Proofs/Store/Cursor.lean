import IndexQuery.Proofs.Store.Range

/-! # What a cursor stands on

    A cursor knows no more than its range and its key, and searches the source from there
    at every step. It still meets each key of the range, in order and once.

    * `Cursor.Stands.advance`: a step takes one key off what lies in front of the cursor.
    * `Cursor.scan_eq_filter`: a scan finds the keys of the source that lie in the range,
      and no others.
    * `Cursors.stands_run`: what lies in front of a cursor is the same whatever is done to
      others.
    * `Cursors.yields`: behind a seek every cursor goes through its range, and what is done
      to others does not matter.
-/

namespace IndexQuery

/-! ## Searching -/

/-- The first of the elements that pass a test passes a second one if some element passes
    both, since the second one is passed on to all earlier elements. -/
theorem filter_find?_of_pairwise {α : Type} {before : α → α → Prop} {p q : α → Bool} {l : List α}
    (h : l.Pairwise before) (hq : ∀ a b, before a b → q b = true → q a = true) :
    (l.find? p).filter q = (l.filter fun a => p a && q a).head? := by
  induction h with
  | nil => rfl
  | @cons a l ha _ ih =>
    by_cases hpa : p a = true
    · by_cases hqa : q a = true
      · simp [hpa, hqa]
      · -- no later element passes the second test
        have hnone : l.filter (fun b => p b && q b) = [] := by
          refine List.filter_eq_nil_iff.2 fun b hb hpq => hqa (hq a b (ha b hb) ?_)
          exact (Bool.and_eq_true _ _ ▸ hpq).2
        simp [hpa, hqa, hnone]
    · simpa [hpa] using ih

namespace Source

/-- The keys stand in ascending order. -/
theorem ascending_keys (s : Source) : s.entries.keys.Pairwise (compare · · = .lt) :=
  s.entries.ascending

/-- What is located is the first key between a start and the end of the range. -/
theorem locate?_eq (s : Source) (range : KeyRange) (start : Key) (included : Bool) :
    s.locate? range start included =
      (s.entries.keys.filter fun key => key.isFrom start included && range.isBeforeEnd key).head? :=
  filter_find?_of_pairwise s.ascending_keys fun _ _ hab hb => KeyRange.isBeforeEnd_of_lt hab hb

/-- The keys of a range. -/
def keysIn (s : Source) (range : KeyRange) : List Key := s.entries.keys.filter range.contains

theorem ascending_keysIn (s : Source) (range : KeyRange) :
    (s.keysIn range).Pairwise (compare · · = .lt) :=
  s.ascending_keys.filter _

theorem isFrom_eq_true_iff {key start : Key} :
    key.isFrom start false = true ↔ compare start key = .lt := by
  rw [← Std.OrientedCmp.gt_iff_lt]
  unfold Key.isFrom
  cases compare key start <;> simp

/-- Behind a key of the range lie the keys that follow it there. -/
theorem filter_isFrom {s : Source} {range : KeyRange} {done rest : List Key} {key : Key}
    (h : s.keysIn range = done ++ key :: rest) :
    (s.entries.keys.filter fun other => other.isFrom key false && range.isBeforeEnd other) =
      rest := by
  have hascending := s.ascending_keysIn range
  have hkey : key ∈ s.keysIn range := by simp [h]
  have hkey := (List.mem_filter.1 hkey).2
  rw [KeyRange.contains, Bool.and_eq_true] at hkey
  -- what lies behind the key lies behind the start of the range
  have hbehind : (s.entries.keys.filter fun other =>
      other.isFrom key false && range.isBeforeEnd other) =
        (s.keysIn range).filter fun other => other.isFrom key false := by
    rw [keysIn, List.filter_filter]
    refine List.filter_congr fun other _ => ?_
    by_cases hfrom : other.isFrom key false = true
    · have hafter := KeyRange.isAfterStart_of_lt (isFrom_eq_true_iff.1 hfrom) hkey.1
      simp [hfrom, KeyRange.contains, hafter]
    · simp [hfrom]
  rw [h, List.pairwise_append, List.pairwise_cons] at hascending
  obtain ⟨-, ⟨hrest, -⟩, hdone⟩ := hascending
  have hnone : done.filter (fun other => other.isFrom key false) = [] := by
    refine List.filter_eq_nil_iff.2 fun other hother hfrom => ?_
    have hlt := hdone other hother key List.mem_cons_self
    exact Std.OrientedCmp.not_lt_of_lt hlt (isFrom_eq_true_iff.1 hfrom)
  have hself : ¬ key.isFrom key false = true := by
    rw [isFrom_eq_true_iff, Std.compare_self]
    simp
  have hall : rest.filter (fun other => other.isFrom key false) = rest :=
    List.filter_eq_self.2 fun other hother => isFrom_eq_true_iff.2 (hrest other hother)
  rw [hbehind, h, List.filter_append, List.filter_cons, if_neg hself, hnone, hall, List.nil_append]

end Source

/-! ## One cursor -/

namespace Cursor

/-- The cursor stands in a range, in front of the last keys of it. -/
structure Stands (c : Cursor) (range : KeyRange) (rest : List Key) : Prop where
  range? : c.range? = some range
  key? : c.key? = rest.head?
  suffix : ∃ done, c.source.keysIn range = done ++ rest

variable {c : Cursor} {range : KeyRange} {rest : List Key}

/-- Behind a seek the whole range lies in front of the cursor, wherever it stood. -/
theorem stands_seek (c : Cursor) (range : KeyRange) :
    (c.seek range).Stands range (c.source.keysIn range) where
  range? := rfl
  key? := c.source.locate?_eq range range.start range.startInclusive
  suffix := ⟨[], rfl⟩

theorem source_advance (c : Cursor) : c.advance.source = c.source := by
  unfold advance
  split <;> rfl

/-- A step takes one key off what lies in front of the cursor. -/
theorem Stands.advance (h : c.Stands range rest) : c.advance.Stands range rest.tail := by
  obtain ⟨hrange, hkey, done, hdone⟩ := h
  unfold Cursor.advance
  cases rest with
  | nil =>
    rw [List.head?_nil] at hkey
    rw [hkey]
    exact ⟨hrange, hkey, done, hdone⟩
  | cons key rest =>
    rw [List.head?_cons] at hkey
    rw [hkey]
    refine ⟨hrange, ?_, done ++ [key], by simp [hdone]⟩
    show c.range?.bind (fun range => c.source.locate? range key false) = rest.head?
    rw [hrange, Option.bind_some, Source.locate?_eq, Source.filter_isFrom hdone]

/-- The keys that a cursor stands on in turn are those in front of it. -/
theorem Stands.take (h : c.Stands range rest) (n : Nat) : Cursor.take n c = rest.take n := by
  induction n generalizing c rest with
  | zero => rfl
  | succ n ih =>
    rw [Cursor.take, h.key?]
    cases rest with
    | nil => rfl
    | cons key rest =>
      have hnext := ih h.advance
      rw [List.tail_cons] at hnext
      simp only [List.head?_cons, List.take_succ_cons, hnext]

/-- A scan finds the keys of the source that lie in the range. -/
theorem scan_eq_filter (c : Cursor) (range : KeyRange) :
    c.scan range = c.source.entries.keys.filter range.contains := by
  have hsize : (c.source.keysIn range).length ≤ c.source.size := by
    have hkeys : c.source.entries.keys.length = c.source.size := List.length_map _
    rw [← hkeys]
    exact List.length_filter_le _ _
  rw [scan, (c.stands_seek range).take, List.take_of_length_le hsize]
  rfl

end Cursor

/-- Of two keys of one cell the newer one comes first. -/
theorem Key.timestamp_lt_of_lt {a b : Key} (h : compare a b = .lt) (hrow : a.row = b.row)
    (hfamily : a.family = b.family) (hqualifier : a.qualifier = b.qualifier)
    (hvisibility : a.visibility = b.visibility) : b.timestamp < a.timestamp := by
  have horder : order a b = .lt := h
  have hnewer : newerFirst a b = .lt := by
    simpa [order, compareLex, compareOn, hrow, hfamily, hqualifier, hvisibility] using horder
  exact Std.compare_eq_lt.1 hnewer

/-! ## Several cursors -/

/-- What is done to one of several cursors. -/
inductive Cursor.Move where
  | seek (place : Nat) (range : KeyRange)
  | advance (place : Nat)
  | copy (place : Nat)
deriving DecidableEq, Repr

/-- The place of the cursor that is moved or copied. -/
def Cursor.Move.place : Cursor.Move → Nat
  | .seek i _ | .advance i | .copy i => i

/-- Cursors side by side. -/
abbrev Cursors := List Cursor

namespace Cursors

open Cursor (Move)

/-- The cursors after a move. A copy comes last. -/
def apply (cs : Cursors) : Move → Cursors
  | .seek i range => cs.modify i (·.seek range)
  | .advance i => cs.modify i Cursor.advance
  | .copy i => cs ++ (cs[i]?.map Cursor.fresh).toList

/-- The cursors after several moves. -/
def run (cs : Cursors) (moves : List Move) : Cursors := moves.foldl apply cs

variable {cs : Cursors} {move : Move} {c : Cursor} {i : Nat}

/-- A move of one cursor leaves all others as they are. -/
theorem getElem?_apply_of_ne (hi : i < cs.length) (hne : move.place ≠ i) :
    (cs.apply move)[i]? = cs[i]? := by
  cases move with
  | seek place range | advance place =>
    have hother : ¬ place = i := hne
    simp [apply, hother]
  | copy place => rw [apply, List.getElem?_append_left hi]

/-- No move changes what a cursor searches. -/
theorem source_of_mem_apply {s : Source} (hs : ∀ c ∈ cs, c.source = s) :
    ∀ c ∈ cs.apply move, c.source = s := by
  have of_modify : ∀ (place : Nat) (f : Cursor → Cursor), (∀ c, (f c).source = c.source) →
      ∀ c ∈ cs.modify place f, c.source = s := by
    intro place f hf c hc
    obtain ⟨j, hj⟩ := List.mem_iff_getElem?.1 hc
    rw [List.getElem?_modify] at hj
    obtain ⟨c', hc', rfl⟩ := Option.map_eq_some_iff.1 hj
    have hsource := hs c' (List.mem_of_getElem? hc')
    split
    · rw [hf, hsource]
    · exact hsource
  cases move with
  | seek place range => exact of_modify place (·.seek range) fun _ => rfl
  | advance place => exact of_modify place Cursor.advance Cursor.source_advance
  | copy place =>
    intro c hc
    rcases List.mem_append.1 hc with hc | hc
    · exact hs c hc
    · obtain ⟨c', hc', rfl⟩ := Option.map_eq_some_iff.1 (Option.mem_toList.1 hc)
      exact hs c' (List.mem_of_getElem? hc')

theorem source_of_mem_run {s : Source} (moves : List Move) (hs : ∀ c ∈ cs, c.source = s) :
    ∀ c ∈ cs.run moves, c.source = s := by
  induction moves generalizing cs with
  | nil => exact hs
  | cons move moves ih => exact ih (source_of_mem_apply hs)

variable {range : KeyRange} {rest : List Key}

/-- Of all moves that are no seek of a cursor, only its own steps take keys off what lies in
    front of it. -/
theorem stands_apply (hc : cs[i]? = some c) (h : c.Stands range rest)
    (hseek : ∀ other, move ≠ .seek i other) :
    ∃ c', (cs.apply move)[i]? = some c' ∧
      c'.Stands range (rest.drop (if move == .advance i then 1 else 0)) := by
  obtain ⟨hi, -⟩ := List.getElem?_eq_some_iff.1 hc
  by_cases hplace : move.place = i
  · cases move with
    | seek place other => exact absurd (hplace ▸ rfl) (hseek other)
    | advance place =>
      obtain rfl : place = i := hplace
      refine ⟨c.advance, by simp [apply, hc], ?_⟩
      simpa using h.advance
    | copy place =>
      refine ⟨c, ?_, by simpa using h⟩
      rw [apply, List.getElem?_append_left hi, hc]
  · have hne : (move == .advance i) = false := by
      rw [beq_eq_false_iff_ne]
      rintro rfl
      exact hplace rfl
    refine ⟨c, ?_, by simpa [hne] using h⟩
    rw [getElem?_apply_of_ne hi hplace, hc]

/-- In front of a cursor lies what its own steps have left, whatever is done to others. -/
theorem stands_run (moves : List Move) (hc : cs[i]? = some c) (h : c.Stands range rest)
    (hseek : ∀ other, .seek i other ∉ moves) :
    ∃ c', (cs.run moves)[i]? = some c' ∧
      c'.Stands range (rest.drop (moves.count (.advance i))) := by
  induction moves generalizing cs c rest with
  | nil => exact ⟨c, hc, h⟩
  | cons move moves ih =>
    have hfirst : ∀ other, move ≠ .seek i other := by
      intro other hmove
      exact hseek other (by simp [hmove])
    obtain ⟨c', hc', h'⟩ := stands_apply hc h hfirst
    obtain ⟨c'', hc'', h''⟩ := ih hc' h' fun other hmem => hseek other (List.mem_cons_of_mem _ hmem)
    refine ⟨c'', hc'', ?_⟩
    rw [List.count_cons, Nat.add_comm, ← List.drop_drop]
    exact h''

theorem run_append (cs : Cursors) (moves moves' : List Move) :
    cs.run (moves ++ moves') = (cs.run moves).run moves' := List.foldl_append

/-- Behind a seek every cursor, copied or not and wherever it stood, goes through its range:

    * it stands on the key that as many of its own steps lead to, and on none when they are
      used up;
    * the keys are those of the source that lie in the range, in ascending order, so that
      none comes twice and within a cell newer ones come first;
    * moves of other cursors, before or after, leave it where it is. -/
theorem yields (c : Cursor) (before after : List Move) (range : KeyRange)
    (hi : i < (run [c] before).length) (hseek : ∀ other, .seek i other ∉ after) :
    let keys := c.source.entries.keys.filter range.contains
    (run [c] (before ++ .seek i range :: after))[i]?.map Cursor.key? =
        some keys[after.count (.advance i)]? ∧
      keys.Pairwise (compare · · = .lt) ∧
      keys.Pairwise (fun a b => a.row = b.row → a.family = b.family → a.qualifier = b.qualifier →
        a.visibility = b.visibility → b.timestamp < a.timestamp) ∧
      ∀ move : Move, move.place ≠ i → (run [c] (before ++ [move]))[i]? = (run [c] before)[i]? := by
  intro keys
  have hascending : keys.Pairwise (compare · · = .lt) := c.source.ascending_keysIn range
  refine ⟨?_, hascending, hascending.imp Key.timestamp_lt_of_lt, ?_⟩
  · have hseek' : ((run [c] before).apply (.seek i range))[i]? =
        some ((run [c] before)[i].seek range) := by
      simp [apply, hi]
    obtain ⟨c', hc', hstands⟩ := stands_run after hseek' (Cursor.stands_seek _ range) hseek
    have hsource : (run [c] before)[i].source = c.source :=
      source_of_mem_run before (by simp) _ (List.getElem_mem hi)
    have hrun : (run [c] (before ++ .seek i range :: after))[i]? = some c' := by
      rw [run_append]
      exact hc'
    rw [hrun, Option.map_some, hstands.key?, List.head?_drop, hsource]
    rfl
  · intro move hne
    rw [run_append]
    exact getElem?_apply_of_ne hi hne

/-- Three versions of two cells, in the order of their keys. -/
def versions : List Key :=
  [⟨"20240101_0", "event", "a", "", 9⟩, ⟨"20240101_0", "event", "a", "", 5⟩,
    ⟨"20240101_0", "event", "b", "", 7⟩]

/-- A copy meets the older version of a cell while the cursor itself is behind the range. -/
theorem yields_versions :
    let source : Source := ⟨.ofList (versions.map (·, ""))⟩
    let range : KeyRange := .qualifiers "20240101_0" "event" "a" "c"
    let before : List Move := [.seek 0 range, .copy 0]
    let after : List Move := [.advance 0, .advance 1, .advance 0, .advance 0]
    (run [⟨source, none, none⟩] (before ++ .seek 1 range :: after))[1]?.map Cursor.key? =
      some versions[1]? := by
  intro source range before after
  have hi : 1 < (run [⟨source, none, none⟩] before).length := by decide +kernel
  have hseek : ∀ other, .seek 1 other ∉ after := by simp [after]
  have hkeys : source.entries.keys.filter range.contains = versions := by decide +kernel
  have hyields := (yields ⟨source, none, none⟩ before after range hi hseek).1
  rw [hkeys] at hyields
  exact hyields

end Cursors

end IndexQuery
