import IndexQuery.Normalizer.Numeral

/-! # The arithmetic of numbers

    The digits of a numeral are bytes, and their power of ten is a word. This module
    says what the arithmetic on them gives and when it leaves its range.

    * `Numeral.scaled_of_scale`: the significant digits are what lies between the zeros
      at either end, and their power of ten is exact.
    * `Numeral.overflow_scale`: taking a numeral apart never leaves the range.
    * `Numeral.overflow_encode`: writing it does so for a negative number with a digit
      outside ASCII, and only then.
-/

namespace IndexQuery

/-! ## Words -/

namespace Word

theorem toInt_of_ofInt? {i : Int} {w : Int32} (h : ofInt? i = some w) :
    w.toInt = i ∧ -2147483648 ≤ i ∧ i ≤ 2147483647 := by
  unfold ofInt? fits at h
  split at h
  · rename_i hfits
    have hfits := of_decide_eq_true hfits
    cases h
    exact ⟨Int32.toInt_ofInt_of_le (by omega) (by omega), hfits⟩
  · cases h

theorem ofInt_of_fits {i : Int} (h : -2147483648 ≤ i ∧ i ≤ 2147483647) :
    (ofInt i).overflow = false ∧ (ofInt i).value.toInt = i := by
  constructor
  · simp [ofInt, fits, h]
  · exact Int32.toInt_ofInt_of_le (by omega) (by omega)

/-- What is not greater can be taken away. -/
theorem subByte_of_le {a b : UInt8} (h : b.toNat ≤ a.toNat) :
    (subByte a b).overflow = false ∧ (subByte a b).value.toNat = a.toNat - b.toNat := by
  have hle : b ≤ a := UInt8.le_iff_toNat_le.2 h
  constructor
  · simpa [subByte] using hle
  · exact UInt8.toNat_sub_of_le a b hle

/-- What is greater wraps around. -/
theorem subByte_of_lt {a b : UInt8} (h : a.toNat < b.toNat) :
    (subByte a b).overflow = true ∧ (subByte a b).value.toNat = 256 + a.toNat - b.toNat := by
  have hlt : a < b := UInt8.lt_iff_toNat_lt.2 h
  have hb := b.toNat_lt
  constructor
  · simpa [subByte] using hlt
  · show (a - b).toNat = _
    rw [UInt8.toNat_sub]
    omega

theorem addByte_of_lt {a b : UInt8} (h : a.toNat + b.toNat < 256) :
    (addByte a b).overflow = false ∧ (addByte a b).value.toNat = a.toNat + b.toNat := by
  constructor
  · simpa [addByte] using h
  · show (a + b).toNat = _
    rw [UInt8.toNat_add]
    omega

end Word

/-! ## Stretches of lists -/

/-- Zeros stand in front of the first digit that is none. -/
theorem exists_of_findIdx? {l : List UInt8} {k : Nat} (h : l.findIdx? (· != 0) = some k) :
    ∃ d rest, d ≠ 0 ∧ l = List.replicate k 0 ++ d :: rest := by
  obtain ⟨hk, hd, hbefore⟩ := List.findIdx?_eq_some_iff_getElem.1 h
  refine ⟨l[k], l.drop (k + 1), by simpa using hd, ?_⟩
  have hzeros : l.take k = List.replicate k 0 := by
    refine List.eq_replicate_iff.2 ⟨List.length_take_of_le (Nat.le_of_lt hk), fun x hx => ?_⟩
    obtain ⟨j, hj, rfl⟩ := List.mem_take_iff_getElem.1 hx
    simpa using hbefore j (by omega)
  rw [← hzeros, List.getElem_cons_drop, List.take_append_drop]

theorem exists_findIdx? {l : List UInt8} {d : UInt8} (hd : d ∈ l) (hne : d ≠ 0) :
    ∃ k, l.findIdx? (· != 0) = some k := by
  rw [← Option.isSome_iff_exists, List.findIdx?_isSome, List.any_eq_true]
  exact ⟨d, hd, by simpa using hne⟩

/-- Between the zeros at either end lie digits that begin and end with others. -/
theorem exists_between_zeros {l : List UInt8} {zeros trailing : Nat}
    (hzeros : l.findIdx? (· != 0) = some zeros)
    (htrailing : l.reverse.findIdx? (· != 0) = some trailing) :
    ∃ ds, l = List.replicate zeros 0 ++ ds ++ List.replicate trailing 0 ∧
      (∃ d, ds.head? = some d ∧ d ≠ 0) ∧ ∃ d, ds.getLast? = some d ∧ d ≠ 0 := by
  obtain ⟨first, rest, hfirst, hl⟩ := exists_of_findIdx? hzeros
  -- from behind, the search ends before it comes to the zeros in front
  have hback : (first :: rest).reverse.findIdx? (· != 0) = some trailing := by
    obtain ⟨k, hfound⟩ := exists_findIdx? (l := (first :: rest).reverse) (by simp) hfirst
    rw [hl, List.reverse_append, List.findIdx?_append, hfound, Option.some_or] at htrailing
    rw [hfound, htrailing]
  obtain ⟨last, rest', hlast, hreverse⟩ := exists_of_findIdx? hback
  have hds : first :: rest = rest'.reverse ++ [last] ++ List.replicate trailing 0 := by
    rw [← List.reverse_reverse (first :: rest), hreverse]
    simp
  refine ⟨rest'.reverse ++ [last], ?_, ⟨first, ?_, hfirst⟩, last, by simp, hlast⟩
  · rw [hl, hds, ← List.append_assoc]
  · have hhead := congrArg List.head? hds
    rw [List.head?_append, Option.or_of_isSome (by simp)] at hhead
    exact hhead.symm

/-- The stretch between two others is the middle of the list. -/
theorem Noted.stretch_append {α : Type} (front back : List α) {middle : List α}
    (hne : middle ≠ []) :
    Noted.stretch (front ++ middle ++ back) front.length
        ((front ++ middle ++ back).length - 1 - back.length) = ⟨middle, false⟩ := by
  have hpos := List.length_pos_iff.2 hne
  have hlength : (front ++ middle ++ back).length = front.length + middle.length + back.length := by
    simp only [List.length_append]
  have hfront : (front ++ middle).length = front.length + middle.length := List.length_append
  have hlast : (front ++ middle ++ back).length - 1 - back.length + 1 =
      (front ++ middle).length := by omega
  have hinside : ¬ ((front ++ middle).length < front.length ∨
      (front ++ middle ++ back).length ≤ (front ++ middle ++ back).length - 1 - back.length) := by
    omega
  rw [Noted.stretch, hlast, List.take_left, List.drop_left, decide_eq_false hinside]

namespace Numeral

open Unicode (isDecimalDigit)

/-! ## The bytes of digits -/

theorem isDigit_iff {c : Char} : c.isDigit = true ↔ 48 ≤ c.toNat ∧ c.toNat ≤ 57 := by
  simp [Char.isDigit, UInt32.le_iff_toNat_le]

/-- The digits of ASCII are decimal digits. -/
theorem isDecimalDigit_of_isDigit {c : Char} (h : c.isDigit = true) : isDecimalDigit c = true := by
  rw [isDigit_iff] at h
  have hmember : Unicode.decimalDigits.contains c = true := by
    simp [CharSet.contains, CharSet.holds, Unicode.decimalDigits, CharSet.covers]
    omega
  have hold : Unicode.newcomers.contains c = false := by
    simp [CharSet.contains, CharSet.holds, Unicode.newcomers, CharSet.covers]
    omega
  rw [isDecimalDigit, hmember, hold]
  rfl

/-- The digits of all scripts stand behind `0`, and those outside ASCII behind Latin-1. -/
theorem le_of_isDecimalDigit {c : Char} (h : isDecimalDigit c = true) :
    48 ≤ c.toNat ∧ (c.isDigit = true ∨ 256 ≤ c.toNat) := by
  have hranges : Unicode.decimalDigits.ranges.tail.all (fun range => Nat.ble 256 range.1) = true := by
    decide
  rw [isDecimalDigit, Bool.and_eq_true] at h
  obtain ⟨range, hrange, hlow, hhigh⟩ := CharSet.exists_range_of_contains h.1
  rcases List.mem_cons.1 hrange with rfl | hrange
  · exact ⟨hlow, .inl (isDigit_iff.2 ⟨hlow, hhigh⟩)⟩
  · have hlow' := List.all_eq_true.1 hranges range hrange
    rw [Nat.ble_eq] at hlow'
    omega

/-- So there are none between the digits of ASCII and the end of Latin-1. -/
theorem isDecimalDigit_of_between {c : Char} (hlow : 57 < c.toNat) (hhigh : c.toNat < 256) :
    isDecimalDigit c = false := by
  rw [Bool.eq_false_iff]
  intro hdigit
  obtain ⟨-, hascii | hbeyond⟩ := le_of_isDecimalDigit hdigit
  · rw [isDigit_iff] at hascii
    omega
  · omega

/-- A character of ASCII is one byte, and the bytes of all others lie beyond those. -/
theorem utf8EncodeChar_cases (c : Char) :
    (c.toNat ≤ 127 ∧ String.utf8EncodeChar c = [UInt8.ofNat c.toNat]) ∨
      128 ≤ c.toNat ∧ ∀ b ∈ String.utf8EncodeChar c, 128 ≤ b.toNat := by
  have hval : c.val.toNat = c.toNat := rfl
  -- all bytes of a character beyond ASCII have the highest bit
  have hbyte : ∀ n : Nat, 128 ≤ n → n < 256 → 128 ≤ (UInt8.ofNat n).toNat := by
    intro n hlow hhigh
    rwa [UInt8.toNat_ofNat', Nat.mod_eq_of_lt hhigh]
  unfold String.utf8EncodeChar
  rw [hval]
  dsimp only
  split
  · rename_i hascii
    exact .inl ⟨hascii, rfl⟩
  · refine .inr ⟨by omega, ?_⟩
    intro b hb
    split at hb
    · simp only [List.mem_cons, List.not_mem_nil, or_false] at hb
      rcases hb with rfl | rfl <;> exact hbyte _ (by omega) (by omega)
    · split at hb
      · simp only [List.mem_cons, List.not_mem_nil, or_false] at hb
        rcases hb with rfl | rfl | rfl <;> exact hbyte _ (by omega) (by omega)
      · simp only [List.mem_cons, List.not_mem_nil, or_false] at hb
        rcases hb with rfl | rfl | rfl | rfl <;> exact hbyte _ (by omega) (by omega)

/-- Whether the mantissa has digits only. -/
def Digital (n : Numeral) : Prop := ∀ c ∈ n.whole ++ n.fraction, isDecimalDigit c = true

/-- Whether the mantissa has digits of ASCII only. -/
def Ascii (n : Numeral) : Prop := ∀ c ∈ n.whole ++ n.fraction, c.isDigit = true

instance (n : Numeral) : Decidable n.Ascii :=
  decidable_of_iff ((n.whole ++ n.fraction).all Char.isDigit = true) List.all_eq_true

variable {n : Numeral}

theorem Ascii.digital (h : n.Ascii) : n.Digital := fun c hc => isDecimalDigit_of_isDigit (h c hc)

theorem bytesOf_append (cs ds : List Char) : bytesOf (cs ++ ds) = bytesOf cs ++ bytesOf ds :=
  List.flatMap_append

theorem value_digits (n : Numeral) :
    n.digits.value = (bytesOf (n.whole ++ n.fraction)).map (· - zeroByte) := by
  rw [bytesOf_append]
  rfl

theorem mem_digits {d : UInt8} : d ∈ n.digits.value ↔
    ∃ c ∈ n.whole ++ n.fraction, ∃ b ∈ String.utf8EncodeChar c, b - zeroByte = d := by
  simp only [value_digits, bytesOf, List.mem_map, List.mem_flatMap]
  grind

/-- No byte of a digit lies before `0`. -/
theorem le_of_mem_utf8EncodeChar {c : Char} {b : UInt8} (h : isDecimalDigit c = true)
    (hb : b ∈ String.utf8EncodeChar c) :
    48 ≤ b.toNat ∧ (c.isDigit = true ∧ b.toNat ≤ 57 ∨ c.isDigit = false ∧ 128 ≤ b.toNat) := by
  obtain ⟨hlow, hdigit⟩ := le_of_isDecimalDigit h
  rcases utf8EncodeChar_cases c with ⟨hascii, hbytes⟩ | ⟨hbeyond, hbytes⟩
  · have hdigit : c.isDigit = true := hdigit.resolve_right (by omega)
    rw [hbytes, List.mem_singleton] at hb
    have hb : b.toNat = c.toNat := by
      rw [hb, UInt8.toNat_ofNat']
      omega
    rw [isDigit_iff] at hdigit
    exact ⟨by omega, .inl ⟨isDigit_iff.2 hdigit, by omega⟩⟩
  · have hb := hbytes b hb
    refine ⟨by omega, .inr ⟨?_, hb⟩⟩
    rw [Bool.eq_false_iff]
    intro hdigit
    rw [isDigit_iff] at hdigit
    omega

/-- Taking the byte of `0` away from those of digits does not leave the range. -/
theorem overflow_digits (h : n.Digital) : n.digits.overflow = false := by
  rw [digits, ← bytesOf_append]
  apply Noted.overflow_each
  intro b hb
  obtain ⟨c, hc, hb⟩ := List.mem_flatMap.1 hb
  exact (Word.subByte_of_le (b := zeroByte) (le_of_mem_utf8EncodeChar (h c hc) hb).1).1

theorem toNat_sub_zeroByte {b : UInt8} (h : 48 ≤ b.toNat) : (b - zeroByte).toNat = b.toNat - 48 :=
  (Word.subByte_of_le (b := zeroByte) h).2

/-- The digits of a numeral are below ten, or far beyond it. -/
theorem digits_range (h : n.Digital) :
    ∀ d ∈ n.digits.value, d.toNat ≤ 9 ∨ 80 ≤ d.toNat ∧ d.toNat ≤ 207 := by
  intro d hd
  obtain ⟨c, hc, b, hb, rfl⟩ := mem_digits.1 hd
  have hlt := b.toNat_lt
  obtain ⟨hlow, hrange⟩ := le_of_mem_utf8EncodeChar (h c hc) hb
  rw [toNat_sub_zeroByte hlow]
  omega

/-- The digits of ASCII are below ten. -/
theorem digits_le_nine (h : n.Ascii) : ∀ d ∈ n.digits.value, d.toNat ≤ 9 := by
  intro d hd
  obtain ⟨c, hc, b, hb, rfl⟩ := mem_digits.1 hd
  obtain ⟨hlow, ⟨-, hhigh⟩ | ⟨hdigit, -⟩⟩ := le_of_mem_utf8EncodeChar (h.digital c hc) hb
  · rw [toNat_sub_zeroByte hlow]
    omega
  · rw [h c hc] at hdigit
    cases hdigit

/-- A digit outside ASCII gives numbers beyond ten. -/
theorem exists_digit_of_not_ascii (hdigital : n.Digital) (h : ¬ n.Ascii) :
    ∃ d ∈ n.digits.value, 80 ≤ d.toNat := by
  simp only [Ascii, Classical.not_forall, Bool.not_eq_true] at h
  obtain ⟨c, hc, hdigit⟩ := h
  obtain ⟨b, hb⟩ := List.exists_mem_of_ne_nil _ (String.utf8EncodeChar_ne_nil (c := c))
  obtain ⟨hlow, ⟨hascii, -⟩ | ⟨-, hhigh⟩⟩ := le_of_mem_utf8EncodeChar (hdigital c hc) hb
  · rw [hdigit] at hascii
    cases hascii
  · refine ⟨b - zeroByte, mem_digits.2 ⟨c, hc, b, hb, rfl⟩, ?_⟩
    rw [toNat_sub_zeroByte hlow]
    omega

/-! ## Taking numerals apart -/

/-- Digits below ten, of which the last is not zero. -/
structure Significant (ds : List UInt8) : Prop where
  ne_nil : ds ≠ []
  le_nine : ∀ d ∈ ds, d.toNat ≤ 9
  last : ds.getLast? ≠ some 0

theorem toNat_pos {d : UInt8} (h : d ≠ 0) : 0 < d.toNat := by
  apply Nat.pos_of_ne_zero
  intro hzero
  exact h (UInt8.toNat_inj.1 hzero)

/-- What the significant digits of a numeral are, and what their power of ten is. -/
structure Scaled (n : Numeral) (magnitude : Int32) (digits : List UInt8) : Prop where
  parts : ∃ zeros trailing power, n.power? = some power ∧
    n.digits.value = List.replicate zeros 0 ++ digits ++ List.replicate trailing 0 ∧
    magnitude.toInt = (bytesOf n.whole).length - 1 - zeros + power.toInt
  head : ∃ d, digits.head? = some d ∧ d ≠ 0
  last : ∃ d, digits.getLast? = some d ∧ d ≠ 0
  bound : magnitude.toInt.natAbs ≤ maxMagnitude

/-- The power of ten is exact, and only its last two steps need to be checked. -/
theorem magnitude_spec (n : Numeral) (zeros : Nat) (power : Int32) :
    (n.magnitude zeros power).overflow = false ∧
      ∀ m, (n.magnitude zeros power).value = some m →
        m.toInt = (bytesOf n.whole).length - 1 - zeros + power.toInt := by
  unfold magnitude
  split
  · rename_i places zeros' hplaces hzeros
    obtain ⟨hplaces, hlow, hhigh⟩ := Word.toInt_of_ofInt? hplaces
    obtain ⟨hzeros, -, -⟩ := Word.toInt_of_ofInt? hzeros
    -- there are no fewer than no places
    obtain ⟨hoverflow, hlast⟩ := Word.ofInt_of_fits (i := places.toInt - 1) (by omega)
    refine ⟨by simp [hoverflow], ?_⟩
    intro m hm
    simp only [Noted.value_bind, Noted.value_pure, hlast] at hm
    obtain ⟨rest, hrest, hm⟩ := Option.bind_eq_some_iff.1 hm
    have hrest := (Word.toInt_of_ofInt? hrest).1
    have hm := (Word.toInt_of_ofInt? hm).1
    omega
  · refine ⟨rfl, ?_⟩
    intro m hm
    cases hm

theorem scale_spec (h : n.Digital) : n.scale.overflow = false ∧
    (n.scale.value = .zero → n.power?.isSome = true ∧ ∀ d ∈ n.digits.value, d = 0) ∧
    ∀ m ds, n.scale.value = .scaled m ds → n.Scaled m ds := by
  unfold scale
  cases hpower : n.power? with
  | none => simp
  | some power =>
    simp only [Noted.overflow_bind, Noted.value_bind, overflow_digits h, Bool.false_or]
    split
    · rename_i zeros trailing hzeros htrailing
      obtain ⟨ds, hparts, hhead, hlast⟩ := exists_between_zeros hzeros htrailing
      have hne : ds ≠ [] := by
        rintro rfl
        obtain ⟨d, hd, -⟩ := hhead
        cases hd
      have hstretch := Noted.stretch_append (List.replicate zeros 0) (List.replicate trailing 0) hne
      rw [← hparts, List.length_replicate, List.length_replicate] at hstretch
      obtain ⟨hmagnitude, hexact⟩ := n.magnitude_spec zeros power
      simp only [Noted.overflow_bind, Noted.value_bind, hstretch, hmagnitude, Bool.false_or]
      split
      · simp
      · rename_i m hm
        split
        · rename_i hbound
          refine ⟨rfl, by simp, ?_⟩
          intro m' ds' hscaled
          cases hscaled
          exact ⟨⟨zeros, trailing, power, hpower, hparts, hexact m hm⟩, hhead, hlast, hbound⟩
        · simp
    · rename_i hnone
      refine ⟨rfl, fun _ => ⟨rfl, ?_⟩, by simp⟩
      -- a digit that is not zero would be found from either end
      intro d hd
      by_cases hzero : d = 0
      · exact hzero
      · obtain ⟨zeros, hzeros⟩ := exists_findIdx? hd hzero
        obtain ⟨trailing, htrailing⟩ := exists_findIdx? (List.mem_reverse.2 hd) hzero
        exact absurd htrailing (hnone zeros trailing hzeros)

/-- Taking a numeral apart does not leave the range. -/
theorem overflow_scale (h : n.Digital) : n.scale.overflow = false := (scale_spec h).1

/-- The significant digits lie between the zeros at either end, and their power of ten is
    exact. -/
theorem scaled_of_scale {m : Int32} {ds : List UInt8} (h : n.Digital)
    (hscale : n.scale.value = .scaled m ds) : n.Scaled m ds :=
  (scale_spec h).2.2 m ds hscale

namespace Scaled

variable {m : Int32} {ds : List UInt8}

theorem ne_nil (h : n.Scaled m ds) : ds ≠ [] := by
  rintro rfl
  obtain ⟨d, hd, -⟩ := h.head
  cases hd

theorem subset (h : n.Scaled m ds) : ∀ d ∈ ds, d ∈ n.digits.value := by
  intro d hd
  obtain ⟨zeros, trailing, power, -, hdigits, -⟩ := h.parts
  rw [hdigits]
  simp [hd]

/-- The digits that are not significant are zeros. -/
theorem mem_or_eq_zero (h : n.Scaled m ds) : ∀ d ∈ n.digits.value, d ∈ ds ∨ d = 0 := by
  intro d hd
  obtain ⟨zeros, trailing, power, -, hdigits, -⟩ := h.parts
  rw [hdigits] at hd
  simp only [List.mem_append, List.mem_replicate] at hd
  rcases hd with (⟨-, hzero⟩ | hd) | ⟨-, hzero⟩
  · exact .inr hzero
  · exact .inl hd
  · exact .inr hzero

theorem range (h : n.Scaled m ds) (hdigital : n.Digital) :
    ∀ d ∈ ds, d.toNat ≤ 9 ∨ 80 ≤ d.toNat ∧ d.toNat ≤ 207 :=
  fun d hd => digits_range hdigital d (h.subset d hd)

theorem significant (h : n.Scaled m ds) (hascii : n.Ascii) : Significant ds where
  ne_nil := h.ne_nil
  le_nine d hd := digits_le_nine hascii d (h.subset d hd)
  last := by
    obtain ⟨d, hd, hne⟩ := h.last
    rw [hd]
    simpa using hne

/-- A digit outside ASCII is significant, for it gives no zeros. -/
theorem exists_of_not_ascii (h : n.Scaled m ds) (hdigital : n.Digital) (hascii : ¬ n.Ascii) :
    ∃ d ∈ ds, 80 ≤ d.toNat ∧ d.toNat ≤ 207 := by
  obtain ⟨d, hd, hlow⟩ := exists_digit_of_not_ascii hdigital hascii
  rcases h.mem_or_eq_zero d hd with hmem | rfl
  · have hrange := h.range hdigital d hmem
    exact ⟨d, hmem, by omega⟩
  · exact absurd hlow (by decide)

end Scaled

/-! ## Writing -/

/-- The letters of all powers of ten that have one: an ASCII letter, the code of which
    rises with the powers of positive numbers and falls with those of negative ones. -/
theorem magnitudeLetter_table : ∀ (negative : Bool) (k : Fin 51),
    let letter := magnitudeLetter negative (Int32.ofInt (k - 25))
    letter.overflow = false ∧ letter.value.isAlpha = true ∧
      letter.value.toNat =
        if negative then (if k < 25 then 121 - k.val else 115 - k.val)
        else (if k < 25 then 66 + k.val else 72 + k.val) := by
  decide +kernel

theorem magnitudeLetter_spec (negative : Bool) {m : Int32} (h : m.toInt.natAbs ≤ maxMagnitude) :
    let letter := magnitudeLetter negative m
    letter.overflow = false ∧ letter.value.isAlpha = true ∧
      (letter.value.toNat : Int) =
        if negative then (if m.toInt < 0 then 96 - m.toInt else 90 - m.toInt)
        else (if m.toInt < 0 then 91 + m.toInt else 97 + m.toInt) := by
  unfold maxMagnitude at h
  have hk : (m.toInt + 25).toNat < 51 := by omega
  have hm : Int32.ofInt (((m.toInt + 25).toNat : Int) - 25) = m := by
    have hcancel : ((m.toInt + 25).toNat : Int) - 25 = m.toInt := by omega
    rw [hcancel, Int32.ofInt_toInt]
  -- the powers with letters are few enough for a table
  have htable := magnitudeLetter_table negative ⟨(m.toInt + 25).toNat, hk⟩
  simp only [hm, Fin.lt_def] at htable
  obtain ⟨hoverflow, halpha, hcode⟩ := htable
  refine ⟨hoverflow, halpha, ?_⟩
  rw [hcode]
  cases negative
  · simp only [Bool.false_eq_true, if_false]
    split <;> split <;> omega
  · simp only [if_true]
    split <;> split <;> omega

/-- The complement of significant digits stays within the range, and is significant. -/
theorem Significant.complement {ds : List UInt8} (h : Significant ds) :
    (complement ds).overflow = false ∧ Significant (complement ds).value := by
  obtain ⟨hne, hle, hlast⟩ := h
  fun_induction Numeral.complement ds with
  | case1 => exact absurd rfl hne
  | case2 d =>
    have hd : d.toNat ≤ 9 := hle d List.mem_cons_self
    -- the only digit is the last one, so that ten is not reached
    have hpos : 0 < d.toNat := toNat_pos fun hzero => hlast (by simp [hzero])
    have hten : d.toNat ≤ 10 := by omega
    obtain ⟨hoverflow, hvalue⟩ : _ ∧ (Word.subByte 10 d).value.toNat = 10 - d.toNat :=
      Word.subByte_of_le hten
    refine ⟨by simp [hoverflow], by simp, ?_, ?_⟩
    · intro c hc
      simp only [Noted.value_bind, Noted.value_pure, List.mem_singleton] at hc
      rw [hc]
      omega
    · intro hzero
      have hzero : (Word.subByte 10 d).value = 0 := by simpa using hzero
      rw [hzero] at hvalue
      have hvalue : 0 = 10 - d.toNat := hvalue
      omega
  | case3 d rest hrest ih =>
    obtain ⟨hd, hle⟩ := List.forall_mem_cons.1 hle
    have hne : rest ≠ [] := fun h => hrest h
    rw [List.getLast?_cons_of_ne_nil hne] at hlast
    obtain ⟨hoverflow, hne', hle', hlast'⟩ := ih hne hle hlast
    obtain ⟨hfirst, hvalue⟩ : _ ∧ (Word.subByte 9 d).value.toNat = 9 - d.toNat :=
      Word.subByte_of_le hd
    refine ⟨by simp [hoverflow, hfirst], by simp, ?_, ?_⟩
    · simp only [Noted.value_bind, Noted.value_pure]
      exact List.forall_mem_cons.2 ⟨by omega, hle'⟩
    · simp only [Noted.value_bind, Noted.value_pure]
      rwa [List.getLast?_cons_of_ne_nil hne']

/-- The complement of a number beyond ten leaves the range, and gives one again. -/
theorem complement_of_mem {ds : List UInt8} {d : UInt8} (hd : d ∈ ds) (hlow : 80 ≤ d.toNat)
    (hhigh : d.toNat ≤ 207) :
    (complement ds).overflow = true ∧
      ∃ c ∈ (complement ds).value, 58 ≤ c.toNat ∧ c.toNat ≤ 207 := by
  fun_induction complement ds with
  | case1 => cases hd
  | case2 e =>
    obtain rfl := List.mem_singleton.1 hd
    -- the last digit is taken from ten, and those before it from nine
    have hten : 10 < d.toNat := by omega
    obtain ⟨hoverflow, hvalue⟩ : _ ∧ (Word.subByte 10 d).value.toNat = 256 + 10 - d.toNat :=
      Word.subByte_of_lt hten
    refine ⟨by simp [hoverflow], (Word.subByte 10 d).value, by simp, ?_⟩
    omega
  | case3 e rest hrest ih =>
    rcases List.mem_cons.1 hd with rfl | hd
    · have hnine : 9 < d.toNat := by omega
      obtain ⟨hoverflow, hvalue⟩ : _ ∧ (Word.subByte 9 d).value.toNat = 256 + 9 - d.toNat :=
        Word.subByte_of_lt hnine
      refine ⟨by simp [hoverflow], (Word.subByte 9 d).value, by simp, ?_⟩
      omega
    · obtain ⟨hoverflow, c, hc, hrange⟩ := ih hd
      refine ⟨by simp [hoverflow], c, ?_, hrange⟩
      simp [hc]

theorem complement_le {ds : List UInt8}
    (h : ∀ d ∈ ds, d.toNat ≤ 9 ∨ 80 ≤ d.toNat ∧ d.toNat ≤ 207) :
    ∀ c ∈ (complement ds).value, c.toNat ≤ 207 := by
  have hsub : ∀ a d : UInt8, 9 ≤ a.toNat → a.toNat ≤ 10 →
      d.toNat ≤ 9 ∨ 80 ≤ d.toNat ∧ d.toNat ≤ 207 → (Word.subByte a d).value.toNat ≤ 207 := by
    intro a d hlow hhigh hd
    by_cases hle : d.toNat ≤ a.toNat
    · rw [(Word.subByte_of_le hle).2]
      omega
    · rw [(Word.subByte_of_lt (Nat.lt_of_not_le hle)).2]
      omega
  fun_induction complement ds with
  | case1 => simp
  | case2 d => simpa using hsub 10 d (by decide) (by decide) (h d List.mem_cons_self)
  | case3 d rest hrest ih =>
    obtain ⟨hd, hrest⟩ := List.forall_mem_cons.1 h
    intro c hc
    simp only [Noted.value_bind, Noted.value_pure, List.mem_cons] at hc
    rcases hc with rfl | hc
    · exact hsub 9 d (by decide) (by decide) hd
    · exact ih hrest c hc

/-- Digits up to a number that can be added to the byte of `0` are written within the
    range. -/
theorem overflow_mantissa {ds : List UInt8} (hne : ds ≠ []) (hle : ∀ d ∈ ds, d.toNat ≤ 207) :
    (mantissa ds).overflow = false := by
  fun_cases mantissa ds
  · exact absurd rfl hne
  · rfl
  · rename_i d rest hrest
    have hdigits : (Noted.each digitChar rest).overflow = false := by
      apply Noted.overflow_each
      intro x hx
      have hx : zeroByte.toNat + x.toNat < 256 := by
        have hle := hle x (List.mem_cons_of_mem _ hx)
        show 48 + x.toNat < 256
        omega
      rw [digitChar, Noted.overflow_map, (Word.addByte_of_lt hx).1]
    simp [hdigits]

/-- Positive numbers are written within the range, and negative ones unless their
    complement leaves it. -/
theorem overflow_write {negative : Bool} {m : Int32} {ds : List UInt8}
    (hm : m.toInt.natAbs ≤ maxMagnitude) :
    (write negative m ds).overflow =
      if negative then (complement ds).overflow || (mantissa (complement ds).value).overflow
      else (mantissa ds).overflow := by
  unfold write
  simp only [Noted.overflow_bind, (magnitudeLetter_spec negative hm).1, Bool.false_or]
  split <;> simp

theorem Scaled.overflow_write {m : Int32} {ds : List UInt8} (h : n.Scaled m ds)
    (hdigital : n.Digital) :
    (write n.negative m ds).overflow = true ↔ n.negative = true ∧ ¬ n.Ascii := by
  have hle : ∀ d ∈ ds, d.toNat ≤ 207 := by
    intro d hd
    have hrange := h.range hdigital d hd
    omega
  rw [Numeral.overflow_write h.bound]
  by_cases hnegative : n.negative = true
  · rw [if_pos hnegative]
    by_cases hascii : n.Ascii
    · -- digits below ten have a complement
      obtain ⟨hoverflow, hcomplement⟩ := (h.significant hascii).complement
      have hmantissa := overflow_mantissa hcomplement.ne_nil fun c hc =>
        Nat.le_trans (hcomplement.le_nine c hc) (by decide)
      simp [hoverflow, hmantissa, hascii]
    · -- a number beyond ten has none
      obtain ⟨d, hd, hlow, hhigh⟩ := h.exists_of_not_ascii hdigital hascii
      have hoverflow := (complement_of_mem hd hlow hhigh).1
      simp [hoverflow, hnegative, hascii]
  · rw [if_neg hnegative, overflow_mantissa h.ne_nil hle]
    simp [hnegative]

/-- What is written of significant digits. -/
theorem value_write (negative : Bool) (m : Int32) (ds : List UInt8) :
    (write negative m ds).value =
      (if negative then '!' else '+') :: (magnitudeLetter negative m).value :: 'E' ::
        (mantissa (if negative then (complement ds).value else ds)).value := by
  cases negative <;> rfl

/-- What is written of a numeral: zero, or its significant digits. -/
theorem value_encode {w : List Char} (hdigital : n.Digital) (h : n.encode.value = some w) :
    (n.scale.value = .zero ∧ w = ['+', 'A', 'E', '0']) ∨
      ∃ m ds, n.Scaled m ds ∧ w = (write n.negative m ds).value := by
  unfold encode at h
  simp only [Noted.value_bind] at h
  split at h
  · cases h
  · rename_i hzero
    cases h
    exact .inl ⟨hzero, rfl⟩
  · rename_i m ds hscaled
    cases h
    exact .inr ⟨m, ds, scaled_of_scale hdigital hscaled, rfl⟩

/-- Zero has digits of ASCII only. -/
theorem ascii_of_zero (h : n.Digital) (hzero : n.scale.value = .zero) : n.Ascii := by
  apply Classical.not_not.1
  intro hascii
  obtain ⟨d, hd, hlow⟩ := exists_digit_of_not_ascii h hascii
  rw [((scale_spec h).2.1 hzero).2 d hd] at hlow
  exact absurd hlow (by decide)

/-- Writing a numeral leaves the range when it is negative, has a digit outside ASCII and
    is not refused, and only then. -/
theorem overflow_encode (h : n.Digital) :
    n.encode.overflow = true ↔
      n.negative = true ∧ n.scale.value ≠ .refused ∧ ¬ n.Ascii := by
  unfold encode
  simp only [Noted.overflow_bind, overflow_scale h, Bool.false_or]
  split
  · rename_i hrefused
    simp [hrefused]
  · rename_i hzero
    simp [ascii_of_zero h hzero]
  · rename_i m ds hscaled
    have hwrite := (scaled_of_scale h hscaled).overflow_write h
    simpa [hscaled] using hwrite

end Numeral

end IndexQuery
