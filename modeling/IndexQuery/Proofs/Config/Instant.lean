import IndexQuery.Config.Instant
import IndexQuery.Proofs.Normalizer.Address
import IndexQuery.Proofs.Text.Digits

/-! # Instants are read as they were written

    What is read is an instant of the calendar, and such an instant is read again from
    what it is written as: the fraction has three, six or nine digits, and a leap second
    is written as the second 60.

    * `Instant.Valid`: the instants that can be read.
    * `Instant.valid_of_read?`: what is read is one of them, whatever the time zone.
    * `Instant.read?_render`: they are read as they were written.
-/

namespace IndexQuery.Instant

open Unicode (trimStart isBlank)

/-- A day of the calendar, a second of the day, and nanoseconds of it. A leap second comes
    at the end of a minute. -/
structure Valid (t : Instant) : Prop where
  date : t.date.isValid = true
  second : t.second < 86400
  nano : t.nano < 1000000000 ∨ t.second % 60 = 59 ∧ t.nano < 2000000000

/-! ## Numbers -/

section Numbers

variable {digits rest : List Char} {width n : Nat}

theorem numberOf_eq (digits : List Char) : numberOf digits = Nat.ofDigitChars 10 digits 0 :=
  Nat.ofDigitChars_eq_foldl.symm

theorem toList_padded (width n : Nat) : (padded width n).toList =
    List.replicate (width - (Nat.toDigits 10 n).length) '0' ++ Nat.toDigits 10 n := by
  simp [padded, Nat.repr_eq_ofList_toDigits]

theorem isDigit_of_mem_padded {c : Char} (hc : c ∈ (padded width n).toList) :
    c.isDigit = true := by
  rw [toList_padded, List.mem_append] at hc
  rcases hc with hzero | hdigit
  · rw [(List.mem_replicate.1 hzero).2]
    rfl
  · exact Nat.isDigit_of_mem_toDigits (by decide) (by decide) hdigit

theorem padded_ne_nil (width n : Nat) : (padded width n).toList ≠ [] := by
  rw [toList_padded]
  exact List.append_ne_nil_of_right_ne_nil _ Nat.toDigits_ne_nil

theorem length_padded (hwidth : 0 < width) (hn : n < 10 ^ width) :
    (padded width n).toList.length = width := by
  have hdigits := (Nat.length_toDigits_le_iff (b := 10) (by decide) hwidth).2 hn
  rw [toList_padded, List.length_append, List.length_replicate]
  omega

theorem numberOf_padded (width n : Nat) : numberOf (padded width n).toList = n := by
  rw [numberOf_eq, toList_padded, Nat.ofDigitChars_append, Nat.ofDigitChars_replicate_zero,
    Nat.mul_zero, Nat.ofDigitChars_ten_toDigits]

/-- Digits are taken together, as long as none follows that would be taken too. -/
theorem takeNumber_append (hdigits : ∀ c ∈ digits, c.isDigit = true) (hne : digits ≠ [])
    (hwidth : digits.length ≤ width)
    (hend : (rest.take (width - digits.length)).takeWhile Char.isDigit = []) :
    takeNumber width (digits ++ rest) = some (numberOf digits, rest) := by
  have htaken : ((digits ++ rest).take width).takeWhile Char.isDigit = digits := by
    rw [List.take_append, List.take_of_length_le hwidth, List.takeWhile_append_of_pos hdigits, hend,
      List.append_nil]
  simp only [takeNumber, htaken]
  rw [if_neg (by simpa using hne), List.drop_left]

theorem takeNumber_padded (hwidth : 0 < width) (hn : n < 10 ^ width) (rest : List Char) :
    takeNumber width ((padded width n).toList ++ rest) = some (n, rest) := by
  have hlength := length_padded hwidth hn
  rw [takeNumber_append (fun c => isDigit_of_mem_padded) (padded_ne_nil _ _) (Nat.le_of_eq hlength)
    (by simp [hlength]), numberOf_padded]

end Numbers

/-! ## Fields and marks -/

section Fields

variable {c : Char} {n : Nat} {rest : List Char}

theorem trimStart_cons (hc : isBlank c = false) : trimStart (c :: rest) = c :: rest := by
  rw [trimStart, List.dropWhile_cons_of_neg (by simp [hc])]

theorem trimStart_padded (width n : Nat) (rest : List Char) :
    trimStart ((padded width n).toList ++ rest) = (padded width n).toList ++ rest := by
  obtain ⟨c, digits, hcons⟩ := List.exists_cons_of_ne_nil (padded_ne_nil width n)
  have hc : c.isDigit = true := isDigit_of_mem_padded (hcons ▸ List.mem_cons_self)
  rw [hcons, List.cons_append, trimStart_cons (Address.isBlank_of_isDigit hc)]

theorem takeField_padded (hn : n < 100) (rest : List Char) :
    takeField ((padded 2 n).toList ++ rest) = some (n, rest) := by
  rw [takeField, trimStart_padded, takeNumber_padded (by decide) hn]

theorem takeMark_cons (hc : isBlank c = false) : takeMark c (c :: rest) = some rest := by
  rw [takeMark, trimStart_cons hc, takeChar, if_pos rfl]

end Fields

/-! ## Dates -/

/-- Without a sign a year has four digits at most. -/
theorem takeYear_unsigned {c : Char} {cs : List Char} (hminus : c ≠ '-') (hplus : c ≠ '+') :
    takeYear (c :: cs) = (takeNumber 4 (c :: cs)).map fun taken => (↑taken.1, taken.2) := by
  unfold takeYear
  split
  · rename_i heq
    exact absurd (List.cons.inj heq).1 hminus
  · rename_i heq
    exact absurd (List.cons.inj heq).1 hplus
  · rfl

/-- Four digits are taken as they are, and a sign lets more of them be taken. -/
theorem takeYear_yearText (year : Int) (rest : List Char) :
    takeYear ((yearText year).toList ++ '-' :: rest) = some (year, '-' :: rest) := by
  -- behind a sign, all digits up to the mark are taken
  have hsigned : ∀ n : Nat, takeNumber ((padded 4 n).toList ++ '-' :: rest).length
      ((padded 4 n).toList ++ '-' :: rest) = some (n, '-' :: rest) := by
    intro n
    rw [takeNumber_append (fun c => isDigit_of_mem_padded) (padded_ne_nil _ _) (by simp)
      (by simp), numberOf_padded]
  unfold yearText
  split
  · rename_i hshort
    rw [Bool.and_eq_true, decide_eq_true_eq, decide_eq_true_eq] at hshort
    have hyear : ((year.toNat : Nat) : Int) = year := Int.toNat_of_nonneg hshort.1
    obtain ⟨c, digits, hcons⟩ := List.exists_cons_of_ne_nil (padded_ne_nil 4 year.toNat)
    have hdigit : c.isDigit = true := isDigit_of_mem_padded (hcons ▸ List.mem_cons_self)
    have hplain : c ≠ '-' ∧ c ≠ '+' := by
      constructor <;> (rintro rfl; revert hdigit; decide)
    have hnumber : year.toNat < 10 ^ 4 := by omega
    have htaken := takeNumber_padded (by decide) hnumber ('-' :: rest)
    rw [hcons, List.cons_append] at htaken ⊢
    rw [takeYear_unsigned hplain.1 hplain.2, htaken]
    simp [hyear]
  · rename_i hlong
    rw [Bool.and_eq_true, decide_eq_true_eq, decide_eq_true_eq] at hlong
    by_cases hnegative : year < 0
    · rw [if_pos hnegative, String.toList_append]
      show takeYear ('-' :: ((padded 4 year.natAbs).toList ++ '-' :: rest)) = _
      rw [takeYear, hsigned]
      simp only [Option.map_some, Option.some.injEq, Prod.mk.injEq, and_true]
      omega
    · rw [if_neg hnegative, String.toList_append]
      show takeYear ('+' :: ((padded 4 year.natAbs).toList ++ '-' :: rest)) = _
      rw [takeYear, hsigned]
      simp only [Option.map_some, Option.some.injEq, Prod.mk.injEq, and_true]
      omega

theorem trimStart_yearText (year : Int) (rest : List Char) :
    trimStart ((yearText year).toList ++ rest) = (yearText year).toList ++ rest := by
  unfold yearText
  split
  · exact trimStart_padded 4 _ rest
  · rw [String.toList_append, List.append_assoc]
    split
    · exact trimStart_cons (by decide)
    · exact trimStart_cons (by decide)

theorem takeDate_dateText {t : Instant} (hdate : t.date.isValid = true) (rest : List Char) :
    takeDate (t.dateText.toList ++ rest) = some (t.date, rest) := by
  have hmonth : t.date.month < 100 ∧ t.date.day < 100 := by
    have hdays : Date.daysInMonth t.date.year t.date.month ≤ 31 := by
      unfold Date.daysInMonth
      split <;> (try split) <;> omega
    simp only [Date.isValid, Bool.and_eq_true, decide_eq_true_eq] at hdate
    omega
  have htext : t.dateText.toList ++ rest = (yearText t.date.year).toList ++ '-' ::
      ((padded 2 t.date.month).toList ++ '-' :: ((padded 2 t.date.day).toList ++ rest)) := by
    simp [dateText]
  simp only [takeDate, htext, trimStart_yearText, takeYear_yearText, Option.bind_eq_bind,
    Option.bind_some, takeMark_cons (c := '-') (by decide), takeField_padded hmonth.1,
    takeField_padded hmonth.2, Option.pure_def]

/-! ## Times of day -/

theorem takeFraction_append {digits rest : List Char} (hdigits : ∀ c ∈ digits, c.isDigit = true)
    (hne : digits ≠ []) (hlength : digits.length ≤ 9) :
    takeFraction ('.' :: (digits ++ 'Z' :: rest)) =
      some (numberOf digits * 10 ^ (9 - digits.length), 'Z' :: rest) := by
  have htaken : (digits ++ 'Z' :: rest).takeWhile Char.isDigit = digits := by
    rw [List.takeWhile_append_of_pos hdigits, List.takeWhile_cons_of_neg (by decide),
      List.append_nil]
  have hdropped : (digits ++ 'Z' :: rest).dropWhile Char.isDigit = 'Z' :: rest := by
    rw [List.dropWhile_append_of_pos hdigits, List.dropWhile_cons_of_neg (by decide)]
  have hnine : numberOf (digits.take 9 ++ List.replicate (9 - digits.length) '0') =
      numberOf digits * 10 ^ (9 - digits.length) := by
    rw [List.take_of_length_le hlength, numberOf_eq, numberOf_eq, Nat.ofDigitChars_append,
      Nat.ofDigitChars_replicate_zero, Nat.mul_comm]
  simp only [takeFraction, htaken, hdropped, hnine, Option.pure_def]
  rw [if_neg (by simpa using hne)]

/-- A fraction is read as it was written, with as few digits as suffice. -/
theorem takeFraction_fractionText {nano : Nat} (h : nano < 1000000000) (rest : List Char) :
    takeFraction ((fractionText nano).toList ++ 'Z' :: rest) = some (nano, 'Z' :: rest) := by
  have hpadded : ∀ width n, 0 < width → width ≤ 9 → n < 10 ^ width →
      n * 10 ^ (9 - width) = nano →
      takeFraction (("." ++ padded width n).toList ++ 'Z' :: rest) = some (nano, 'Z' :: rest) := by
    intro width n hwidth hnine hn hnano
    have hlength := length_padded hwidth hn
    have htext : ("." ++ padded width n).toList ++ 'Z' :: rest =
        '.' :: ((padded width n).toList ++ 'Z' :: rest) := by
      simp
    rw [htext, takeFraction_append (fun c => isDigit_of_mem_padded) (padded_ne_nil _ _)
      (by omega), hlength, numberOf_padded, hnano]
  unfold fractionText
  split
  · rename_i hzero
    rw [hzero]
    rfl
  · split
    · exact hpadded 3 _ (by decide) (by decide) (by omega) (by omega)
    · split
      · exact hpadded 6 _ (by decide) (by decide) (by omega) (by omega)
      · exact hpadded 9 _ (by decide) (by decide) (by omega) (by omega)

/-- The time of day as it is written: a leap second counts as the second 60. -/
theorem takeTime_timeText {t : Instant} (hsecond : t.second < 86400)
    (hnano : t.nano < 1000000000 ∨ t.second % 60 = 59 ∧ t.nano < 2000000000) (rest : List Char) :
    takeTime (t.timeText.toList ++ 'Z' :: rest) = some ((t.second, t.nano), 'Z' :: rest) := by
  -- what is written behind the minutes, for both kinds of seconds
  have hread : ∀ second nano, second ≤ 60 → nano < 1000000000 →
      takeTime ((padded 2 (t.second / 3600) ++ ":" ++ padded 2 (t.second / 60 % 60) ++ ":" ++
          padded 2 second ++ fractionText nano).toList ++ 'Z' :: rest) =
        if second = 60 then
          some ((t.second / 3600 * 3600 + t.second / 60 % 60 * 60 + 59, nano + 1000000000),
            'Z' :: rest)
        else
          some ((t.second / 3600 * 3600 + t.second / 60 % 60 * 60 + second, nano),
            'Z' :: rest) := by
    intro second nano hle hlt
    have htext : (padded 2 (t.second / 3600) ++ ":" ++ padded 2 (t.second / 60 % 60) ++ ":" ++
          padded 2 second ++ fractionText nano).toList ++ 'Z' :: rest =
        (padded 2 (t.second / 3600)).toList ++ ':' :: ((padded 2 (t.second / 60 % 60)).toList ++
          ':' :: ((padded 2 second).toList ++ ((fractionText nano).toList ++ 'Z' :: rest))) := by
      simp
    have hrange : (decide (t.second / 3600 < 24) && decide (t.second / 60 % 60 < 60) &&
        decide (second ≤ 60)) = true := by
      simp only [Bool.and_eq_true, decide_eq_true_eq]
      omega
    simp only [takeTime, htext, Option.bind_eq_bind, Option.bind_some,
      takeField_padded (n := t.second / 3600) (by omega),
      takeField_padded (n := t.second / 60 % 60) (by omega),
      takeField_padded (n := second) (by omega), takeMark_cons (c := ':') (by decide), takeFraction_fractionText hlt, hrange, if_true,
      Option.pure_def]
  unfold timeText
  by_cases hleap : 1000000000 ≤ t.nano
  · simp only [hleap, if_true]
    rw [hread _ _ (by omega) (by omega), if_pos (by omega)]
    simp only [Option.some.injEq, Prod.mk.injEq, and_true]
    omega
  · simp only [hleap, if_false, Nat.add_zero]
    rw [hread _ _ (by omega) (by omega), if_neg (by omega)]
    simp only [Option.some.injEq, Prod.mk.injEq, and_true]
    omega

/-! ## Instants -/

/-- An instant of the calendar is read as it was written. -/
theorem read?_render {t : Instant} (h : t.Valid) : read? t.render = some t := by
  have htext : t.render.toList = t.dateText.toList ++ 'T' :: (t.timeText.toList ++ 'Z' :: []) := by
    simp [render]
  have hlocal : ofLocal t.date t.second t.nano 0 = t := by
    have hrange : ¬ ((t.second : Int) - 0 < 0) ∧ ¬ (86400 ≤ (t.second : Int) - 0) := by
      have := h.second
      omega
    simp only [ofLocal, if_neg hrange.1, if_neg hrange.2]
    cases t
    simp
  have hblank : trimStart ['Z'] = ['Z'] := trimStart_cons (by decide)
  simp only [read?, htext, takeDate_dateText h.date, Option.bind_eq_bind, Option.bind_some,
    decide_true, Bool.true_or, if_true, takeTime_timeText h.second h.nano, hblank, takeZone, hlocal,
    h.date]
  rfl

/-! ## What is read -/

section Read

variable {cs rest : List Char}

/-- No more than nine digits of a fraction count. -/
theorem takeFraction_lt {nano : Nat} (h : takeFraction cs = some (nano, rest)) :
    nano < 1000000000 := by
  unfold takeFraction at h
  split at h
  · rename_i cs
    dsimp only at h
    split at h
    · cases h
    · cases h
      -- nine digits are left, by cutting or by zeros behind them
      have hdigits : ∀ c ∈ (cs.takeWhile Char.isDigit).take 9 ++
          List.replicate (9 - (cs.takeWhile Char.isDigit).length) '0', c.isDigit = true := by
        intro c hc
        rcases List.mem_append.1 hc with hdigit | hzero
        · exact List.all_eq_true.1 List.all_takeWhile c (List.mem_of_mem_take hdigit)
        · rw [(List.mem_replicate.1 hzero).2]
          rfl
      have hlt := Text.ofDigitChars_lt hdigits
      have hlength : ((cs.takeWhile Char.isDigit).take 9 ++
          List.replicate (9 - (cs.takeWhile Char.isDigit).length) '0').length = 9 := by
        rw [List.length_append, List.length_take, List.length_replicate]
        omega
      rw [hlength, ← numberOf_eq] at hlt
      exact hlt
  · cases h
    decide

/-- A time of day lies within the day, and a leap second ends a minute. -/
theorem takeTime_bounds {second nano : Nat} (h : takeTime cs = some ((second, nano), rest)) :
    second < 86400 ∧ (nano < 1000000000 ∨ second % 60 = 59 ∧ nano < 2000000000) := by
  simp only [takeTime, Option.bind_eq_bind, Option.bind_eq_some_iff] at h
  obtain ⟨⟨hour, _⟩, -, _, -, ⟨minute, _⟩, -, _, -, ⟨s, _⟩, -, ⟨n, _⟩, hfraction, h⟩ := h
  have hnano := takeFraction_lt hfraction
  split at h
  · rename_i hrange
    simp only [Bool.and_eq_true, decide_eq_true_eq] at hrange
    split at h <;> cases h <;> omega
  · cases h

/-- A time zone is ahead or behind by whole minutes, and by less than a day. -/
theorem takeOffset_bounds {n : Nat} (h : takeOffset cs = some (n, rest)) :
    n < 86400 ∧ n % 60 = 0 := by
  simp only [takeOffset, Option.bind_eq_bind, Option.bind_eq_some_iff] at h
  obtain ⟨⟨hours, _⟩, -, ⟨minutes, _⟩, -, h⟩ := h
  split at h
  · rename_i hrange
    simp only [Bool.and_eq_true, decide_eq_true_eq] at hrange
    cases h
    omega
  · cases h

theorem takeZone_bounds {offset : Int} (h : takeZone cs = some (offset, rest)) :
    -86400 < offset ∧ offset < 86400 ∧ offset % 60 = 0 := by
  unfold takeZone at h
  split at h
  · cases h
  · split at h
    · cases h
      decide
    · split at h
      · obtain ⟨⟨n, _⟩, hn, heq⟩ := Option.map_eq_some_iff.1 h
        have hbounds := takeOffset_bounds hn
        cases heq
        omega
      · split at h
        · obtain ⟨⟨n, _⟩, hn, heq⟩ := Option.map_eq_some_iff.1 h
          have hbounds := takeOffset_bounds hn
          cases heq
          omega
        · split at h
          · cases h
            decide
          · cases h

/-- Moved by whole minutes, a second of the day keeps its place in the minute. -/
theorem ofLocal_bounds (date : Date) (nano : Nat) {second : Nat} {offset : Int}
    (hsecond : second < 86400)
    (hoffset : -86400 < offset ∧ offset < 86400 ∧ offset % 60 = 0) :
    (ofLocal date second nano offset).second < 86400 ∧
      (ofLocal date second nano offset).second % 60 = second % 60 ∧
      (ofLocal date second nano offset).nano = nano := by
  unfold ofLocal
  dsimp only
  split
  · dsimp only
    omega
  · split
    · dsimp only
      omega
    · dsimp only
      omega

/-- What is read is an instant of the calendar. -/
theorem valid_of_read? {text : String} {t : Instant} (h : read? text = some t) : t.Valid := by
  simp only [read?, Option.bind_eq_bind, Option.bind_eq_some_iff] at h
  obtain ⟨⟨date, cs⟩, -, h⟩ := h
  split at h
  · cases h
  · split at h
    · simp only [Option.bind_eq_some_iff] at h
      obtain ⟨⟨⟨second, nano⟩, _⟩, htime, ⟨offset, _⟩, hzone, h⟩ := h
      split at h
      · rename_i hvalid
        cases h
        simp only [Bool.and_eq_true] at hvalid
        have htime := takeTime_bounds htime
        obtain ⟨hday, hminute, hnano⟩ :=
          ofLocal_bounds date nano htime.1 (takeZone_bounds hzone)
        exact ⟨hvalid.2, hday, by rw [hminute, hnano]; exact htime.2⟩
      · cases h
    · cases h

end Read

end IndexQuery.Instant
