import IndexQuery.Unicode.Blank
import IndexQuery.Unicode.Digit
import IndexQuery.Unicode.Lowercase

/-! # Lower case is stable

    The tables are long, so what holds of every image of the lower-case mapping is
    read off the bounds of its runs.

    * `CaseRun.misses`, `CaseRun.avoids`: what the bounds of the runs show.
    * `not_covers_map`: no run moves the lower case of a character.
    * `lowercase_lowercase`: lower case is idempotent on texts.
    * `mem_of_mem_lowerFrom`: a digit in a lower case stood in the text.
    * `lowerFrom_eq_map`: a lower case made of digits, blanks, punctuation and `e` was
      such a text before, with `E` in the place of some of its `e`.
-/

namespace IndexQuery.Unicode

/-! ## Runs -/

/-- The image of the first scalar value of a run. -/
def CaseRun.firstImage (run : CaseRun) : Nat := (run.first + run.shift).toNat

/-- The image of the last scalar value of a run. -/
def CaseRun.lastImage (run : CaseRun) : Nat := (run.last + run.shift).toNat

/-- Whether the bounds of a run show that it has no image in a range. -/
def CaseRun.avoids (run : CaseRun) (range : Nat × Nat) : Bool :=
  Nat.blt run.lastImage range.1 || Nat.blt range.2 run.firstImage

/-- Whether the bounds of two runs show that the second one moves no image of the first
    one: the images are outside, or between the moved values. -/
def CaseRun.misses (run other : CaseRun) : Bool :=
  run.avoids (other.first, other.last) ||
    ((run.stride == 2 || run.first == run.last) && other.stride == 2 &&
      (run.firstImage + other.first) % 2 == 1)

/-- The image of a scalar value lies between those of the bounds, in steps of the run. -/
theorem CaseRun.image_bounds {run : CaseRun} {n : Nat} (h : run.covers n = true) :
    run.firstImage ≤ (n + run.shift).toNat ∧ (n + run.shift).toNat ≤ run.lastImage := by
  simp only [covers, Bool.and_eq_true, decide_eq_true_eq] at h
  unfold firstImage lastImage
  omega

theorem CaseRun.not_covers_of_misses {run other : CaseRun} {n : Nat} (h : run.covers n = true)
    (hmisses : run.misses other = true) (hshift : 0 ≤ run.first + run.shift) :
    other.covers (n + run.shift).toNat = false := by
  have hbounds := image_bounds h
  rw [Bool.eq_false_iff]
  intro hcovers
  simp only [covers, Bool.and_eq_true, decide_eq_true_eq, beq_iff_eq] at h hcovers
  simp only [misses, avoids, Bool.or_eq_true, Bool.and_eq_true, Nat.blt_eq, beq_iff_eq] at hmisses
  rcases hmisses with (hbelow | habove) | ⟨⟨hrun, hother⟩, hparity⟩
  · omega
  · omega
  · -- images and moved values have different parities
    rw [hother] at hcovers
    unfold firstImage at hparity
    rcases hrun with hstride | hsingle
    · rw [hstride] at h
      omega
    · omega

theorem CaseRun.image_of_avoids {run : CaseRun} {n : Nat} {range : Nat × Nat}
    (h : run.covers n = true) (havoids : run.avoids range = true) :
    (n + run.shift).toNat < range.1 ∨ range.2 < (n + run.shift).toNat := by
  have hbounds := image_bounds h
  simp only [avoids, Bool.or_eq_true, Nat.blt_eq] at havoids
  omega

/-! ## The lower-case table -/

/-- No run moves an image of another one. -/
theorem lowercaseTable_misses :
    (lowercaseTable.runs.all fun run => lowercaseTable.runs.all run.misses) = true := by
  decide +kernel

/-- The images are small letters, or beyond ASCII: neither blanks nor digits. -/
theorem lowercaseTable_avoids :
    (((0, 0x60) :: (0xD800, 0xDFFF) :: (blanks.ranges ++ decimalDigits.ranges)).all fun range =>
      lowercaseTable.runs.all (·.avoids range)) = true := by
  decide +kernel

/-- The bounds of the runs and of their images are scalar values. -/
theorem lowercaseTable_bounds :
    (lowercaseTable.runs.all fun run =>
      decide (0 ≤ run.first + run.shift) && Nat.blt run.lastImage 0x110000) = true := by
  decide +kernel

/-- Only the first run, that of the capital letters of ASCII, has the image `e`. -/
theorem lowercaseTable_tail_avoids :
    (lowercaseTable.runs.tail.all (·.avoids (0x65, 0x65))) = true := by
  decide +kernel

/-- A character is moved by a run, or stays since no run covers it. -/
theorem CaseTable.map_cases (table : CaseTable) (c : Char) :
    (∃ run ∈ table.runs, run.covers c.toNat = true ∧
        table.map c = Char.ofNat (c.toNat + run.shift).toNat) ∨
      ((∀ run ∈ table.runs, run.covers c.toNat = false) ∧ table.map c = c) := by
  cases hfind : table.runs.find? (·.covers c.toNat) with
  | some run =>
    have hcovers : run.covers c.toNat = true := by simpa using List.find?_some hfind
    exact .inl ⟨run, List.mem_of_find?_eq_some hfind, hcovers, by simp only [map, hfind]⟩
  | none =>
    have hcovers : ∀ run ∈ table.runs, run.covers c.toNat = false := by simpa using hfind
    exact .inr ⟨hcovers, by simp only [map, hfind]⟩

theorem CaseTable.map_of_not_covers {table : CaseTable} {c : Char}
    (h : ∀ run ∈ table.runs, run.covers c.toNat = false) : table.map c = c := by
  obtain ⟨run, hrun, hcovers, -⟩ | ⟨-, hmap⟩ := table.map_cases c
  · rw [h run hrun] at hcovers
    cases hcovers
  · exact hmap

/-- The image of a moved character is the character with the moved scalar value. -/
theorem toNat_image {run : CaseRun} (hrun : run ∈ lowercaseTable.runs) {c : Char}
    (h : run.covers c.toNat = true) :
    (Char.ofNat (c.toNat + run.shift).toNat).toNat = (c.toNat + run.shift).toNat := by
  have hbounds := CaseRun.image_bounds h
  have hlast := List.all_eq_true.1 lowercaseTable_bounds run hrun
  simp only [Bool.and_eq_true, Nat.blt_eq] at hlast
  have havoids := List.all_eq_true.1 lowercaseTable_avoids (0xD800, 0xDFFF) (by simp)
  -- no image is a surrogate or beyond the last scalar value
  have hsurrogate := CaseRun.image_of_avoids h (List.all_eq_true.1 havoids run hrun)
  have hvalid : (c.toNat + run.shift).toNat.isValidChar := by
    rcases hsurrogate with hlow | hhigh
    · exact .inl hlow
    · exact .inr ⟨hhigh, by omega⟩
  rw [Char.ofNat, dif_pos hvalid]
  rfl

/-- No run covers the lower case of a character. -/
theorem not_covers_map (c : Char) :
    ∀ other ∈ lowercaseTable.runs, other.covers (lowercaseTable.map c).toNat = false := by
  intro other hother
  obtain ⟨run, hrun, hcovers, hmap⟩ | ⟨hnone, hmap⟩ := lowercaseTable.map_cases c
  · have hbounds := List.all_eq_true.1 lowercaseTable_bounds run hrun
    simp only [Bool.and_eq_true, decide_eq_true_eq] at hbounds
    have hmisses := List.all_eq_true.1 (List.all_eq_true.1 lowercaseTable_misses run hrun) other hother
    rw [hmap, toNat_image hrun hcovers]
    exact CaseRun.not_covers_of_misses hcovers hmisses hbounds.1
  · rw [hmap]
    exact hnone other hother

/-! ## Lower case of texts -/

/-- A character that no run moves. -/
def IsLower (c : Char) : Prop := ∀ run ∈ lowercaseTable.runs, run.covers c.toNat = false

instance (c : Char) : Decidable (IsLower c) :=
  inferInstanceAs (Decidable (∀ run ∈ lowercaseTable.runs, run.covers c.toNat = false))

theorem ne_of_isLower {c : Char} (h : IsLower c) : c ≠ 'Σ' ∧ c ≠ 'İ' ∧ c ≠ 'E' := by
  refine ⟨?_, ?_, ?_⟩ <;> (rintro rfl; exact absurd h (by decide +kernel))

/-- The lower case of a character is of lower case. -/
theorem isLower_of_mem_lowerChar {c x : Char} (hx : x ∈ lowerChar c) : IsLower x := by
  unfold lowerChar at hx
  split at hx
  · simp only [List.mem_cons, List.not_mem_nil, or_false] at hx
    rcases hx with rfl | rfl <;> decide +kernel
  · rw [List.mem_singleton.1 hx]
    exact not_covers_map c

/-- A character stays, or its lower case is a small letter or lies beyond ASCII. -/
theorem eq_or_lt_of_mem_lowerChar {c x : Char} (hx : x ∈ lowerChar c) : x = c ∨ 0x60 < x.toNat := by
  unfold lowerChar at hx
  split at hx
  · simp only [List.mem_cons, List.not_mem_nil, or_false] at hx
    rcases hx with rfl | rfl <;> exact .inr (by decide)
  · rw [List.mem_singleton.1 hx]
    obtain ⟨run, hrun, hcovers, hmap⟩ | ⟨-, hmap⟩ := lowercaseTable.map_cases c
    · have havoids := List.all_eq_true.1 lowercaseTable_avoids (0, 0x60) (by simp)
      have hhigh := CaseRun.image_of_avoids hcovers (List.all_eq_true.1 havoids run hrun)
      rw [hmap, toNat_image hrun hcovers]
      omega
    · exact .inl hmap

/-- A character of lower case stays. -/
theorem lowerChar_of_isLower {c : Char} (h : IsLower c) : lowerChar c = [c] := by
  rw [lowerChar, if_neg (ne_of_isLower h).2.1, CaseTable.map_of_not_covers h]

/-- The characters of a lower case are all of lower case. -/
theorem isLower_of_mem_lowerFrom {before cs : List Char} :
    ∀ c ∈ lowerFrom before cs, IsLower c := by
  induction cs generalizing before with
  | nil => simp [lowerFrom]
  | cons c rest ih =>
    intro x hx
    rw [lowerFrom, List.mem_append] at hx
    rcases hx with himage | hrest
    · split at himage
      · rw [List.mem_singleton.1 himage]
        split <;> decide +kernel
      · exact isLower_of_mem_lowerChar himage
    · exact ih x hrest

/-- A text of lower case stays. -/
theorem lowerFrom_of_isLower {cs : List Char} (before : List Char) (h : ∀ c ∈ cs, IsLower c) :
    lowerFrom before cs = cs := by
  induction cs generalizing before with
  | nil => rfl
  | cons c rest ih =>
    obtain ⟨hc, hrest⟩ := List.forall_mem_cons.1 h
    rw [lowerFrom]
    simp only [if_neg (ne_of_isLower hc).1, lowerChar_of_isLower hc, ih (c :: before) hrest,
      List.singleton_append]

/-- Lower case is idempotent. -/
theorem lowercase_lowercase (text : String) : lowercase (lowercase text) = lowercase text := by
  have hlower : ∀ c ∈ (lowercase text).toList, IsLower c := by
    rw [lowercase, String.toList_ofList]
    exact isLower_of_mem_lowerFrom
  show String.ofList (lowerFrom [] (lowercase text).toList) = lowercase text
  rw [lowerFrom_of_isLower [] hlower, String.ofList_toList]

/-! ## Where lower case changes little -/

/-- The small letter of `E`. -/
def lowerE (c : Char) : Char := if c = 'E' then 'e' else c

/-- The characters of numbers and addresses, and more: `e`, digits, blanks and what comes
    before the small letters. -/
def isPlain (c : Char) : Bool :=
  c.toNat ≤ 0x60 || c == 'e' || blanks.contains c || decimalDigits.contains c

theorem not_contains_of_avoids {run : CaseRun} {set : CharSet} {c d : Char}
    (h : run.covers c.toNat = true) (hd : d.toNat = (c.toNat + run.shift).toNat)
    (havoids : ∀ range ∈ set.ranges, run.avoids range = true) : set.contains d = false := by
  rw [Bool.eq_false_iff]
  intro hcontains
  obtain ⟨range, hrange, hlow, hhigh⟩ := CharSet.exists_range_of_contains hcontains
  have himage := CaseRun.image_of_avoids h (havoids range hrange)
  omega

/-- No image of a run is a blank or a digit. -/
theorem not_contains_image {run : CaseRun} (hrun : run ∈ lowercaseTable.runs) {c d : Char}
    (h : run.covers c.toNat = true) (hd : d.toNat = (c.toNat + run.shift).toNat) :
    blanks.contains d = false ∧ decimalDigits.contains d = false := by
  have havoids : ∀ range ∈ blanks.ranges ++ decimalDigits.ranges, run.avoids range = true :=
    fun range hrange => List.all_eq_true.1 (List.all_eq_true.1 lowercaseTable_avoids range
      (by simp [List.mem_append.1 hrange])) run hrun
  obtain ⟨hblanks, hdigits⟩ := List.forall_mem_append.1 havoids
  exact ⟨not_contains_of_avoids h hd hblanks, not_contains_of_avoids h hd hdigits⟩

/-- A digit in a lower case stood there before. -/
theorem eq_of_mem_lowerChar {c x : Char} (hx : x ∈ lowerChar c) (hdigit : isDecimalDigit x = true) :
    x = c := by
  unfold lowerChar at hx
  split at hx
  · simp only [List.mem_cons, List.not_mem_nil, or_false] at hx
    rcases hx with rfl | rfl <;> exact absurd hdigit (by decide +kernel)
  · rw [List.mem_singleton.1 hx] at hdigit ⊢
    obtain ⟨run, hrun, hcovers, hmap⟩ | ⟨-, hmap⟩ := lowercaseTable.map_cases c
    · have himage := toNat_image hrun hcovers
      rw [← hmap] at himage
      rw [isDecimalDigit, (not_contains_image hrun hcovers himage).2] at hdigit
      cases hdigit
    · exact hmap

theorem mem_of_mem_lowerFrom {before cs : List Char} {x : Char} (hx : x ∈ lowerFrom before cs)
    (hdigit : isDecimalDigit x = true) : x ∈ cs := by
  induction cs generalizing before with
  | nil => simp [lowerFrom] at hx
  | cons c rest ih =>
    rw [lowerFrom, List.mem_append] at hx
    rcases hx with himage | hrest
    · split at himage
      · -- neither kind of small sigma is a digit
        rw [List.mem_singleton.1 himage] at hdigit
        split at hdigit <;> exact absurd hdigit (by decide +kernel)
      · rw [eq_of_mem_lowerChar himage hdigit]
        exact List.mem_cons_self
    · exact List.mem_cons_of_mem _ (ih hrest)

/-- Of plain characters only `e` is the lower case of another character, of `E`. -/
theorem map_eq_lowerE {c : Char} (h : isPlain (lowercaseTable.map c) = true) :
    lowercaseTable.map c = lowerE c := by
  obtain ⟨run, hrun, hcovers, hmap⟩ | ⟨hnone, hmap⟩ := lowercaseTable.map_cases c
  · have himage := toNat_image hrun hcovers
    rw [← hmap] at himage
    obtain ⟨hblank, hdigit⟩ := not_contains_image hrun hcovers himage
    have havoids := List.all_eq_true.1 lowercaseTable_avoids (0, 0x60) List.mem_cons_self
    have hhigh := CaseRun.image_of_avoids hcovers (List.all_eq_true.1 havoids run hrun)
    have he : lowercaseTable.map c = 'e' := by
      simp only [isPlain, hblank, hdigit, Bool.or_false, Bool.or_eq_true, decide_eq_true_eq,
        beq_iff_eq] at h
      rcases h with hlow | he
      · omega
      · exact he
    -- the run is the first one, whose shift is 32
    have hfirst : run = ⟨0x41, 0x5A, 1, 32⟩ := by
      rcases List.mem_cons.1 hrun with hfirst | htail
      · exact hfirst
      · have hnot := CaseRun.image_of_avoids hcovers
          (List.all_eq_true.1 lowercaseTable_tail_avoids run htail)
        rw [he] at himage
        rw [← himage] at hnot
        exact absurd hnot (by decide)
    have hc : c.toNat = 'E'.toNat := by
      rw [he, hfirst] at himage
      have he' : 'e'.toNat = 101 := rfl
      have hE : 'E'.toNat = 69 := rfl
      simp only at himage
      omega
    rw [Char.toNat_inj.1 hc] at he ⊢
    rw [he]
    rfl
  · rw [hmap, lowerE, if_neg (ne_of_isLower hnone).2.2]

/-- A lower case of plain characters is the text with `e` for `E`. -/
theorem lowerFrom_eq_map {before cs : List Char} (h : ∀ c ∈ lowerFrom before cs, isPlain c = true) :
    lowerFrom before cs = cs.map lowerE := by
  induction cs generalizing before with
  | nil => rfl
  | cons c rest ih =>
    rw [lowerFrom] at h ⊢
    obtain ⟨himage, hrest⟩ := List.forall_mem_append.1 h
    rw [ih hrest, List.map_cons]
    split at himage
    · -- neither kind of small sigma is plain
      split at himage <;> exact absurd (himage _ List.mem_cons_self) (by decide +kernel)
    · rename_i hsigma
      unfold lowerChar at himage
      split at himage
      · exact absurd (himage 'i' List.mem_cons_self) (by decide +kernel)
      · rename_i hdotted
        have hmap := map_eq_lowerE (himage _ List.mem_cons_self)
        simp only [if_neg hsigma, lowerChar, if_neg hdotted, hmap, List.singleton_append]

end IndexQuery.Unicode
