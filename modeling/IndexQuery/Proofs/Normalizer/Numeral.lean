import IndexQuery.Proofs.Normalizer.Address
import IndexQuery.Proofs.Normalizer.Arithmetic
import IndexQuery.Proofs.Unicode.Lowercase

/-! # Encoded numbers

    The text that numbers are written as is recognised as such, if their digits are
    those of ASCII.

    * `Numeral.isEncoded_of_encode`: an encoded number has the form of one.
    * `Numeral.normalize?_normalize?`: encoding is idempotent.
    * `Numeral.read?_map`: a numeral reads the same with `e` for `E`.
    * `Numeral.isSome_of_lowerFrom`: what is a number in lower case is one.
-/

namespace IndexQuery.Numeral

open Unicode (isDecimalDigit isBlank isPlain lowerE)

/-! ## Encoded numbers -/

/-- A digit below ten is written as one character, which is a digit of ASCII. -/
theorem digitChar_table : ∀ k : Fin 10,
    let char := (digitChar (UInt8.ofNat k)).value
    (toString (UInt8.ofNat k).toNat).toList = [char] ∧ char.toNat = 48 + k.val := by
  decide

theorem digitChar_spec {d : UInt8} (h : d.toNat ≤ 9) :
    (toString d.toNat).toList = [(digitChar d).value] ∧ (digitChar d).value.toNat = 48 + d.toNat := by
  have htable := digitChar_table ⟨d.toNat, by omega⟩
  simpa only [UInt8.ofNat_toNat] using htable

theorem isDigit_digitChar {d : UInt8} (h : d.toNat ≤ 9) : (digitChar d).value.isDigit = true := by
  rw [isDigit_iff, (digitChar_spec h).2]
  omega

/-- The text of digits below ten, with a point after the first. -/
theorem value_mantissa {ds : List UInt8} (h : Significant ds) :
    ∃ d rest, ds = d :: rest ∧ (mantissa ds).value = (digitChar d).value ::
      if rest = [] then [] else '.' :: rest.map fun x => (digitChar x).value := by
  obtain ⟨hne, hds, -⟩ := h
  fun_cases mantissa ds
  · exact absurd rfl hne
  · rename_i d
    exact ⟨d, [], rfl, (digitChar_spec (hds d List.mem_cons_self)).1⟩
  · rename_i d rest hrest
    refine ⟨d, rest, rfl, ?_⟩
    rw [if_neg fun h => hrest h, Noted.value_bind, Noted.value_pure,
      (digitChar_spec (hds d List.mem_cons_self)).1]
    rfl

/-- The text of digits below ten has digits of ASCII, and a point perhaps. -/
theorem mem_mantissa {ds : List UInt8} (hds : Significant ds) {c : Char}
    (hc : c ∈ (mantissa ds).value) : c.isDigit = true ∨ c = '.' := by
  obtain ⟨d, rest, rfl, hvalue⟩ := value_mantissa hds
  obtain ⟨hd, hrest⟩ := List.forall_mem_cons.1 hds.le_nine
  rw [hvalue, List.mem_cons] at hc
  rcases hc with rfl | hc
  · exact .inl (isDigit_digitChar hd)
  · split at hc
    · cases hc
    · rcases List.mem_cons.1 hc with rfl | hc
      · exact .inr rfl
      · obtain ⟨x, hx, rfl⟩ := List.mem_map.1 hc
        exact .inl (isDigit_digitChar (hrest x hx))

/-- A sign, a letter and significant digits make up an encoded number. -/
theorem isEncoded_mantissa {sign letter : Char} {ds : List UInt8} (hsign : sign = '+' ∨ sign = '!')
    (hletter : letter.isAlpha = true) (hds : Significant ds) :
    isEncoded (sign :: letter :: 'E' :: (mantissa ds).value) = true := by
  have hsign' : (sign == '+' || sign == '!') = true := by
    rcases hsign with rfl | rfl <;> rfl
  obtain ⟨d, rest, rfl, hvalue⟩ := value_mantissa hds
  obtain ⟨hd, hrest⟩ := List.forall_mem_cons.1 hds.le_nine
  have hfirst := isDigit_digitChar hd
  rw [hvalue]
  -- a single digit stands alone, several have a point behind the first
  by_cases hnil : rest = []
  · rw [if_pos hnil]
    simp [isEncoded, hsign', hletter, isDecimalDigit_of_isDigit hfirst]
  · rw [if_neg hnil]
    have hall : (rest.map fun x => (digitChar x).value).all isDecimalDigit = true := by
      rw [List.all_eq_true, List.forall_mem_map]
      exact fun x hx => isDecimalDigit_of_isDigit (isDigit_digitChar (hrest x hx))
    have hsome : (rest.map fun x => (digitChar x).value).isEmpty = false := by
      simpa using hnil
    simp only [isEncoded, hsign', hletter, isDecimalDigit_of_isDigit hfirst, hall, hsome]
    rfl

/-- What is written of significant digits begins with a sign, a letter and `E`. -/
theorem value_write_cases (negative : Bool) {m : Int32} (ds : List UInt8)
    (hm : m.toInt.natAbs ≤ maxMagnitude) :
    ∃ sign letter, (sign = '+' ∨ sign = '!') ∧ letter.isAlpha = true ∧
      (write negative m ds).value = sign :: letter :: 'E' ::
        (mantissa (if negative then (complement ds).value else ds)).value := by
  refine ⟨_, _, ?_, (magnitudeLetter_spec negative hm).2.1, value_write negative m ds⟩
  cases negative
  · exact .inl rfl
  · exact .inr rfl

/-- An encoded number has a capital `E`. -/
theorem mem_of_encode {n : Numeral} {w : List Char} (hdigital : n.Digital)
    (h : n.encode.value = some w) : 'E' ∈ w := by
  rcases value_encode hdigital h with ⟨-, rfl⟩ | ⟨m, ds, hscaled, rfl⟩
  · decide
  · obtain ⟨sign, letter, -, -, hvalue⟩ := value_write_cases n.negative ds hscaled.bound
    simp [hvalue]

/-- The letters of ASCII stand behind its digits. -/
theorem toNat_of_isAlpha {c : Char} (h : c.isAlpha = true) : 65 ≤ c.toNat ∧ c.toNat ≤ 122 := by
  have hletter : (decide ('A'.val ≤ c.val ∧ c.val ≤ 'Z'.val) ||
      decide ('a'.val ≤ c.val) && decide (c.val ≤ 'z'.val)) = true := h
  simp only [Bool.or_eq_true, Bool.and_eq_true, decide_eq_true_eq, UInt32.le_iff_toNat_le] at hletter
  have hcode : c.val.toNat = c.toNat := rfl
  have hbounds : 'A'.val.toNat = 65 ∧ 'Z'.val.toNat = 90 ∧ 'a'.val.toNat = 97 ∧ 'z'.val.toNat = 122 :=
    ⟨rfl, rfl, rfl, rfl⟩
  omega

/-- No letter of ASCII is white space. -/
theorem isBlank_of_isAlpha {c : Char} (h : c.isAlpha = true) : isBlank c = false := by
  rw [Bool.eq_false_iff]
  intro hblank
  obtain ⟨range, hrange, hlow, hhigh⟩ := CharSet.exists_range_of_contains hblank
  have hletter := toNat_of_isAlpha h
  simp only [Unicode.blanks, List.mem_cons, List.not_mem_nil, or_false] at hrange
  rcases hrange with rfl | rfl | rfl | rfl | rfl | rfl | rfl | rfl | rfl | rfl <;> omega

/-- A letter of ASCII is no digit of any script. -/
theorem isDecimalDigit_of_isAlpha {c : Char} (h : c.isAlpha = true) : isDecimalDigit c = false := by
  have hcode := toNat_of_isAlpha h
  exact isDecimalDigit_of_between (by omega) (by omega)

/-- The digits that are written of significant ones. -/
theorem Significant.written {ds : List UInt8} (h : Significant ds) (negative : Bool) :
    Significant (if negative then (Numeral.complement ds).value else ds) := by
  cases negative with
  | false => exact h
  | true => exact h.complement.2

/-- The text of an ASCII numeral has the form of an encoded number. It has no white space, and
    no digits but those of ASCII. -/
theorem isEncoded_of_encode {n : Numeral} {w : List Char} (hascii : n.Ascii)
    (h : n.encode.value = some w) : isEncoded w = true ∧
      ∀ c ∈ w, isBlank c = false ∧ (isDecimalDigit c = true → c.isDigit = true) := by
  rcases value_encode hascii.digital h with ⟨-, rfl⟩ | ⟨m, ds, hscaled, rfl⟩
  · refine ⟨by decide, fun c hc => ?_⟩
    simp only [List.mem_cons, List.not_mem_nil, or_false] at hc
    rcases hc with rfl | rfl | rfl | rfl <;> decide
  · obtain ⟨sign, letter, hsign, hletter, hvalue⟩ :=
      value_write_cases n.negative ds hscaled.bound
    have hwritten := (hscaled.significant hascii).written n.negative
    rw [hvalue]
    refine ⟨isEncoded_mantissa hsign hletter hwritten, ?_⟩
    intro c hc
    simp only [List.mem_cons] at hc
    rcases hc with rfl | rfl | rfl | hc
    · rcases hsign with rfl | rfl <;> decide
    · exact ⟨isBlank_of_isAlpha hletter, by simp [isDecimalDigit_of_isAlpha hletter]⟩
    · decide
    · rcases mem_mantissa hwritten hc with hdigit | rfl
      · exact ⟨Address.isBlank_of_isDigit hdigit, fun _ => hdigit⟩
      · decide

theorem mem_of_isEncoded {text : List Char} (h : isEncoded text = true) : 'E' ∈ text := by
  unfold isEncoded at h
  split at h
  · simp
  · cases h

/-! ## Reading -/

/-- A text is its sign and what follows it. -/
theorem takeSign_cases (text : List Char) :
    (takeSign text = (true, text.tail) ∧ text = '-' :: text.tail) ∨
      (takeSign text = (false, text.tail) ∧ text = '+' :: text.tail) ∨
      takeSign text = (false, text) := by
  fun_cases takeSign text
  · exact .inl ⟨rfl, rfl⟩
  · exact .inr (.inl ⟨rfl, rfl⟩)
  · exact .inr (.inr rfl)

theorem mem_takeSign {text : List Char} {c : Char} (h : c ∈ text) :
    c = '-' ∨ c = '+' ∨ c ∈ (takeSign text).2 := by
  rcases takeSign_cases text with ⟨hsign, htext⟩ | ⟨hsign, htext⟩ | hsign
  · rw [htext] at h
    rw [hsign]
    rcases List.mem_cons.1 h with rfl | h
    · exact .inl rfl
    · exact .inr (.inr h)
  · rw [htext] at h
    rw [hsign]
    rcases List.mem_cons.1 h with rfl | h
    · exact .inr (.inl rfl)
    · exact .inr (.inr h)
  · rw [hsign]
    exact .inr (.inr h)

theorem takeSign_subset (text : List Char) : ∀ c ∈ (takeSign text).2, c ∈ text := by
  intro c hc
  rcases takeSign_cases text with ⟨hsign, htext⟩ | ⟨hsign, htext⟩ | hsign
  · rw [hsign] at hc
    rw [htext]
    exact List.mem_cons_of_mem _ hc
  · rw [hsign] at hc
    rw [htext]
    exact List.mem_cons_of_mem _ hc
  · rwa [hsign] at hc

/-- Reads a numeral behind its sign. -/
def readUnsigned? (negative : Bool) (text : List Char) : Option Numeral :=
  let whole := text.takeWhile isDecimalDigit
  match text.dropWhile isDecimalDigit with
  | '.' :: rest =>
    let fraction := rest.takeWhile isDecimalDigit
    if whole.isEmpty && fraction.isEmpty then none
    else
      (readExponent? (rest.dropWhile isDecimalDigit)).map fun exponent =>
        ⟨negative, whole, fraction, exponent⟩
  | rest =>
    if whole.isEmpty then none
    else (readExponent? rest).map fun exponent => ⟨negative, whole, [], exponent⟩

theorem read?_eq (text : List Char) :
    read? text = readUnsigned? (takeSign text).1 (takeSign text).2 := rfl

/-- What a numeral is read from: digits, a point with digits perhaps, and an exponent. -/
theorem readUnsigned?_eq_some {negative : Bool} {text : List Char} {n : Numeral}
    (h : readUnsigned? negative text = some n) :
    ∃ point rest exponent, text = n.whole ++ point ++ n.fraction ++ rest ∧
      (point = [] ∨ point = ['.']) ∧ readExponent? rest = some exponent ∧
      ∀ c ∈ n.whole ++ n.fraction, isDecimalDigit c = true := by
  have hwhole : ∀ c ∈ text.takeWhile isDecimalDigit, isDecimalDigit c = true :=
    List.all_eq_true.1 List.all_takeWhile
  have htext := List.takeWhile_append_dropWhile (p := isDecimalDigit) (l := text)
  unfold readUnsigned? at h
  dsimp only at h
  split at h
  · -- digits behind a point make the fraction
    rename_i rest hdrop
    split at h
    · cases h
    · obtain ⟨exponent, hexponent, rfl⟩ := Option.map_eq_some_iff.1 h
      refine ⟨['.'], _, exponent, ?_, .inr rfl, hexponent, ?_⟩
      · rw [hdrop] at htext
        refine htext.symm.trans ?_
        simp
      · intro c hc
        rcases List.mem_append.1 hc with hc | hc
        · exact hwhole c hc
        · exact List.all_eq_true.1 List.all_takeWhile c hc
  · split at h
    · cases h
    · obtain ⟨exponent, hexponent, rfl⟩ := Option.map_eq_some_iff.1 h
      refine ⟨[], _, exponent, by simp, .inl rfl, hexponent, by simpa using hwhole⟩

/-- The digits of a numeral are digits of the text. -/
theorem digits_of_read? {text : List Char} {n : Numeral} (h : read? text = some n) :
    ∀ c ∈ n.whole ++ n.fraction, c ∈ text ∧ isDecimalDigit c = true := by
  rw [read?_eq] at h
  obtain ⟨point, rest, exponent, htext, -, -, hdigits⟩ := readUnsigned?_eq_some h
  intro c hc
  refine ⟨takeSign_subset text c ?_, hdigits c hc⟩
  rw [htext]
  rcases List.mem_append.1 hc with hc | hc <;> simp [hc]

theorem digital_of_read? {text : List Char} {n : Numeral} (h : read? text = some n) : n.Digital :=
  fun c hc => (digits_of_read? h c hc).2

theorem readUnsigned?_of_ne {negative : Bool} {text : List Char}
    (h : ∀ rest, text.dropWhile isDecimalDigit ≠ '.' :: rest) :
    readUnsigned? negative text =
      if (text.takeWhile isDecimalDigit).isEmpty then none
      else (readExponent? (text.dropWhile isDecimalDigit)).map fun exponent =>
        ⟨negative, text.takeWhile isDecimalDigit, [], exponent⟩ := by
  unfold readUnsigned?
  dsimp only
  split
  · rename_i rest hdrop
    exact absurd hdrop (h rest)
  · rfl

/-- Digits are taken up to the first character that is none. -/
theorem takeWhile_digits {ds rest : List Char} (hds : ∀ c ∈ ds, c.isDigit = true)
    (hrest : ∀ c ∈ rest.head?, isDecimalDigit c = false) :
    (ds ++ rest).takeWhile isDecimalDigit = ds ∧ (ds ++ rest).dropWhile isDecimalDigit = rest := by
  have hds : ∀ c ∈ ds, isDecimalDigit c = true := fun c hc => isDecimalDigit_of_isDigit (hds c hc)
  rw [List.takeWhile_append_of_pos hds, List.dropWhile_append_of_pos hds]
  cases rest with
  | nil => simp
  | cons c rest =>
    have hc : ¬ isDecimalDigit c = true := by simp [hrest c rfl]
    rw [List.takeWhile_cons_of_neg hc, List.dropWhile_cons_of_neg hc, List.append_nil]
    exact ⟨rfl, rfl⟩

/-- A numeral begins with a digit or a point. -/
theorem readUnsigned?_eq_none {negative : Bool} {c : Char} {rest : List Char}
    (hdigit : isDecimalDigit c = false) (hpoint : c ≠ '.') :
    readUnsigned? negative (c :: rest) = none := by
  have htake : (c :: rest).takeWhile isDecimalDigit = [] :=
    List.takeWhile_cons_of_neg (by simp [hdigit])
  have hdrop : (c :: rest).dropWhile isDecimalDigit = c :: rest :=
    List.dropWhile_cons_of_neg (by simp [hdigit])
  rw [readUnsigned?_of_ne, htake]
  · rfl
  · intro rest' hrest'
    rw [hdrop] at hrest'
    exact hpoint (List.cons.inj hrest').1

/-- A letter behind the sign does not begin a numeral. -/
theorem read?_of_isAlpha {sign letter : Char} {rest : List Char} (hsign : sign = '+' ∨ sign = '!')
    (hletter : letter.isAlpha = true) : read? (sign :: letter :: rest) = none := by
  have hdigit := isDecimalDigit_of_isAlpha hletter
  have hpoint : letter ≠ '.' := by
    rintro rfl
    cases hletter
  have hbang : isDecimalDigit '!' = false := by decide
  rcases hsign with rfl | rfl
  · exact readUnsigned?_eq_none hdigit hpoint
  · exact readUnsigned?_eq_none hbang (by decide)

/-- An encoded number is no numeral. -/
theorem read?_of_isEncoded {text : List Char} (h : isEncoded text = true) : read? text = none := by
  unfold isEncoded at h
  split at h
  · rename_i sign letter first rest
    simp only [Bool.and_eq_true, Bool.or_eq_true, beq_iff_eq] at h
    exact read?_of_isAlpha h.1.1.1 h.1.1.2
  · cases h

/-! ## Small and capital letters -/

theorem isPlain_of_isDecimalDigit {c : Char} (h : isDecimalDigit c = true) : isPlain c = true := by
  rw [isDecimalDigit, Bool.and_eq_true] at h
  simp [isPlain, h.1]

theorem isPlain_of_isExponent {text : List Char} (h : isExponent text = true) :
    ∀ c ∈ text, isPlain c = true := by
  intro c hc
  rw [isExponent, Bool.and_eq_true] at h
  rcases mem_takeSign hc with rfl | rfl | hc
  · rfl
  · rfl
  · exact isPlain_of_isDecimalDigit (List.all_eq_true.1 h.2 c hc)

theorem isPlain_of_readExponent? {text : List Char} {exponent : Option (List Char)}
    (h : readExponent? text = some exponent) : ∀ c ∈ text, isPlain c = true := by
  unfold readExponent? at h
  split at h
  · simp
  · rename_i c rest
    split at h
    · rename_i hexponent
      simp only [Bool.and_eq_true, Bool.or_eq_true, decide_eq_true_eq] at hexponent
      obtain ⟨hc, hrest⟩ := hexponent
      -- either kind of letter is plain: `e` as such, and `E` before the small letters
      intro x hx
      rcases List.mem_cons.1 hx with rfl | hx
      · rcases hc with rfl | rfl <;> rfl
      · exact isPlain_of_isExponent hrest x hx
    · cases h

/-- A numeral is written in plain characters. -/
theorem isPlain_of_read? {text : List Char} {n : Numeral} (h : read? text = some n) :
    ∀ c ∈ text, isPlain c = true := by
  rw [read?_eq] at h
  obtain ⟨point, rest, exponent, htext, hpoint, hexponent, hdigits⟩ := readUnsigned?_eq_some h
  intro c hc
  rcases mem_takeSign hc with rfl | rfl | hc
  · rfl
  · rfl
  · rw [htext] at hc
    simp only [List.mem_append] at hc
    rcases hc with ((hc | hc) | hc) | hc
    · exact isPlain_of_isDecimalDigit (hdigits c (by simp [hc]))
    · rcases hpoint with rfl | rfl
      · cases hc
      · rw [List.mem_singleton.1 hc]
        rfl
    · exact isPlain_of_isDecimalDigit (hdigits c (by simp [hc]))
    · exact isPlain_of_readExponent? hexponent c hc

theorem lowerE_of_ne {c : Char} (h : c ≠ 'E') : lowerE c = c := if_neg h

theorem isBlank_lowerE (c : Char) : isBlank (lowerE c) = isBlank c := by
  by_cases hc : c = 'E'
  · subst hc
    decide
  · rw [lowerE_of_ne hc]

theorem isDecimalDigit_lowerE (c : Char) : isDecimalDigit (lowerE c) = isDecimalDigit c := by
  by_cases hc : c = 'E'
  · subst hc
    decide
  · rw [lowerE_of_ne hc]

/-- The letter of an exponent may be of either kind. -/
theorem lowerE_eq_letter_iff (c : Char) : lowerE c = 'e' ∨ lowerE c = 'E' ↔ c = 'e' ∨ c = 'E' := by
  by_cases hc : c = 'E'
  · subst hc
    decide
  · rw [lowerE_of_ne hc]

/-- Neither kind of `E` is anything else in a numeral. -/
theorem lowerE_eq_iff {d : Char} (hd : d ≠ 'e') (hd' : d ≠ 'E') (c : Char) :
    lowerE c = d ↔ c = d := by
  by_cases hc : c = 'E'
  · subst hc
    exact ⟨fun h => absurd h.symm hd, fun h => absurd h.symm hd'⟩
  · rw [lowerE_of_ne hc]

theorem map_lowerE_of_digits {text : List Char} (h : ∀ c ∈ text, isDecimalDigit c = true) :
    text.map lowerE = text := by
  have hself : ∀ c ∈ text, lowerE c = c := by
    intro c hc
    apply lowerE_of_ne
    rintro rfl
    exact absurd (h 'E' hc) (by decide)
  rw [List.map_congr_left hself, List.map_id']

theorem comp_lowerE : isDecimalDigit ∘ lowerE = isDecimalDigit := funext isDecimalDigit_lowerE

theorem takeWhile_map_lowerE (text : List Char) :
    (text.map lowerE).takeWhile isDecimalDigit = text.takeWhile isDecimalDigit := by
  rw [List.takeWhile_map, comp_lowerE]
  exact map_lowerE_of_digits (List.all_eq_true.1 List.all_takeWhile)

theorem dropWhile_map_lowerE (text : List Char) :
    (text.map lowerE).dropWhile isDecimalDigit = (text.dropWhile isDecimalDigit).map lowerE := by
  rw [List.dropWhile_map, comp_lowerE]

theorem takeSign_map (text : List Char) :
    takeSign (text.map lowerE) = ((takeSign text).1, (takeSign text).2.map lowerE) := by
  cases text with
  | nil => rfl
  | cons c rest =>
    -- signs have no case, so that the same characters are taken off
    have hminus : lowerE c = '-' ↔ c = '-' := lowerE_eq_iff (by decide) (by decide) c
    have hplus : lowerE c = '+' ↔ c = '+' := lowerE_eq_iff (by decide) (by decide) c
    rw [List.map_cons]
    by_cases hc : c = '-'
    · rw [hminus.2 hc, hc]
      rfl
    · by_cases hc' : c = '+'
      · rw [hplus.2 hc', hc']
        rfl
      · have hnone : ∀ d ds, d ≠ '-' → d ≠ '+' → takeSign (d :: ds) = (false, d :: ds) := by
          intro d ds hd hd'
          rcases takeSign_cases (d :: ds) with ⟨-, h⟩ | ⟨-, h⟩ | h
          · exact absurd (List.cons.inj h).1 hd
          · exact absurd (List.cons.inj h).1 hd'
          · exact h
        rw [hnone _ _ (fun h => hc (hminus.1 h)) (fun h => hc' (hplus.1 h)), hnone c rest hc hc']
        rfl

theorem isExponent_map (text : List Char) : isExponent (text.map lowerE) = isExponent text := by
  rw [isExponent, takeSign_map, isExponent, List.isEmpty_map, List.all_map, comp_lowerE]

/-- An exponent has no letters. -/
theorem map_lowerE_of_isExponent {text : List Char} (h : isExponent text = true) :
    text.map lowerE = text := by
  rw [isExponent, Bool.and_eq_true] at h
  have hdigits := map_lowerE_of_digits (List.all_eq_true.1 h.2)
  rcases takeSign_cases text with ⟨hsign, htext⟩ | ⟨hsign, htext⟩ | hsign
  · rw [hsign] at hdigits
    rw [htext, List.map_cons, hdigits]
    rfl
  · rw [hsign] at hdigits
    rw [htext, List.map_cons, hdigits]
    rfl
  · rwa [hsign] at hdigits

theorem readExponent?_map (text : List Char) :
    readExponent? (text.map lowerE) = readExponent? text := by
  cases text with
  | nil => rfl
  | cons c rest =>
    have hletter := lowerE_eq_letter_iff c
    rw [List.map_cons, readExponent?, readExponent?, isExponent_map]
    by_cases hexponent : isExponent rest = true
    · rw [map_lowerE_of_isExponent hexponent]
      simp only [← Bool.decide_or, hletter]
    · simp [hexponent]

theorem readUnsigned?_map (negative : Bool) (text : List Char) :
    readUnsigned? negative (text.map lowerE) = readUnsigned? negative text := by
  by_cases hpoint : ∃ rest, text.dropWhile isDecimalDigit = '.' :: rest
  · obtain ⟨rest, hdrop⟩ := hpoint
    have hmap : (text.map lowerE).dropWhile isDecimalDigit = '.' :: rest.map lowerE := by
      rw [dropWhile_map_lowerE, hdrop]
      rfl
    unfold readUnsigned?
    simp only [hdrop, hmap, takeWhile_map_lowerE, dropWhile_map_lowerE, readExponent?_map]
  · have hnone : ∀ rest, text.dropWhile isDecimalDigit ≠ '.' :: rest :=
      fun rest hrest => hpoint ⟨rest, hrest⟩
    have hnone' : ∀ rest, (text.map lowerE).dropWhile isDecimalDigit ≠ '.' :: rest := by
      intro rest hrest
      rw [dropWhile_map_lowerE] at hrest
      obtain ⟨c, cs, hdrop, hc, -⟩ := List.map_eq_cons_iff.1 hrest
      rw [(lowerE_eq_iff (by decide) (by decide) c).1 hc] at hdrop
      exact hnone cs hdrop
    rw [readUnsigned?_of_ne hnone, readUnsigned?_of_ne hnone', takeWhile_map_lowerE,
      dropWhile_map_lowerE, readExponent?_map]

/-- A numeral reads the same with `e` for `E`. -/
theorem read?_map (text : List Char) : read? (text.map lowerE) = read? text := by
  rw [read?_eq, takeSign_map, readUnsigned?_map, ← read?_eq]

/-! ## Normal forms -/

/-- The order-preserving text of a number. -/
def normalize? (text : List Char) : Option (List Char) := (normalize text).value

theorem normalize?_eq (text : List Char) : normalize? text =
    if isEncoded (Unicode.trim text) then some (Unicode.trim text)
    else (read? (Unicode.trim text)).bind fun n => n.encode.value := by
  unfold normalize? normalize
  dsimp only
  by_cases hencoded : isEncoded (Unicode.trim text) = true
  · rw [if_pos hencoded, if_pos hencoded]
    rfl
  · rw [if_neg hencoded, if_neg hencoded]
    cases read? (Unicode.trim text) <;> rfl

/-- A number is encoded, or read and then encoded. -/
theorem normalize?_eq_some {text w : List Char} (h : normalize? text = some w) :
    (isEncoded (Unicode.trim text) = true ∧ w = Unicode.trim text) ∨
      ∃ n, read? (Unicode.trim text) = some n ∧ n.Digital ∧ n.encode.value = some w := by
  rw [normalize?_eq] at h
  split at h
  · rename_i hencoded
    cases h
    exact .inl ⟨hencoded, rfl⟩
  · obtain ⟨n, hn, hw⟩ := Option.bind_eq_some_iff.1 h
    exact .inr ⟨n, hn, digital_of_read? hn, hw⟩

theorem normalize?_of_isEncoded {text : List Char} (hencoded : isEncoded text = true)
    (htrimmed : Unicode.Trimmed text) : normalize? text = some text := by
  rw [normalize?_eq, htrimmed.trim_eq, if_pos hencoded]

theorem mem_of_normalize? {text w : List Char} (h : normalize? text = some w) : 'E' ∈ w := by
  rcases normalize?_eq_some h with ⟨hencoded, rfl⟩ | ⟨n, -, hdigital, hw⟩
  · exact mem_of_isEncoded hencoded
  · exact mem_of_encode hdigital hw

theorem mem_of_mem_trim {text : List Char} {c : Char} (h : c ∈ Unicode.trim text) : c ∈ text := by
  have hback := (List.dropWhile_sublist isBlank).subset (List.mem_reverse.1 h)
  exact (List.dropWhile_sublist isBlank).subset (List.mem_reverse.1 hback)

/-- What is written of an ASCII numeral is kept. -/
theorem normalize?_of_encode {n : Numeral} {w : List Char} (hascii : n.Ascii)
    (h : n.encode.value = some w) : normalize? w = some w := by
  obtain ⟨hencoded, hchars⟩ := isEncoded_of_encode hascii h
  exact normalize?_of_isEncoded hencoded (Unicode.trimmed_of_forall fun c hc => (hchars c hc).1)

section Ascii

variable {text w : List Char} (hascii : ∀ c ∈ text, isDecimalDigit c = true → c.isDigit = true)

include hascii

/-- The numeral in a text without digits of other scripts is one of ASCII. -/
theorem ascii_of_read? {n : Numeral} (h : read? (Unicode.trim text) = some n) : n.Ascii := by
  intro c hc
  obtain ⟨hmem, hdigit⟩ := digits_of_read? h c hc
  exact hascii c (mem_of_mem_trim hmem) hdigit

/-- Encoding is idempotent on texts without digits of other scripts. -/
theorem normalize?_normalize? (h : normalize? text = some w) : normalize? w = some w := by
  rcases normalize?_eq_some h with ⟨hencoded, rfl⟩ | ⟨n, hn, -, hw⟩
  · exact normalize?_of_isEncoded hencoded (Unicode.trimmed_trim text)
  · exact normalize?_of_encode (ascii_of_read? hascii hn) hw

/-- Encoding writes no digits of other scripts. -/
theorem isDigit_of_normalize? (h : normalize? text = some w) :
    ∀ c ∈ w, isDecimalDigit c = true → c.isDigit = true := by
  intro c hc
  rcases normalize?_eq_some h with ⟨-, rfl⟩ | ⟨n, hn, -, hw⟩
  · exact hascii c (mem_of_mem_trim hc)
  · exact ((isEncoded_of_encode (ascii_of_read? hascii hn) hw).2 c hc).2

/-- Encoding does not leave its range. -/
theorem overflow_normalize : (normalize text).overflow = false := by
  unfold normalize
  dsimp only
  split
  · rfl
  · split
    · rfl
    · rename_i n hn
      rw [Bool.eq_false_iff, ne_eq, overflow_encode (digital_of_read? hn)]
      exact fun h => h.2.2 (ascii_of_read? hascii hn)

end Ascii

/-- What is a number in lower case is a number. -/
theorem isSome_of_lowerFrom {before text w : List Char}
    (h : normalize? (Unicode.lowerFrom before text) = some w) :
    (normalize? text).isSome = true := by
  rcases normalize?_eq_some h with ⟨hencoded, -⟩ | ⟨n, hn, -, hw⟩
  · -- an encoded number has an `E`, which is not of lower case
    have hmem := mem_of_mem_trim (mem_of_isEncoded hencoded)
    exact absurd rfl (Unicode.ne_of_isLower (Unicode.isLower_of_mem_lowerFrom 'E' hmem)).2.2
  · -- a number is plain, so that nothing but an `E` was in capitals
    have hplain : ∀ c ∈ Unicode.lowerFrom before text, isPlain c = true := by
      intro c hc
      rcases Unicode.mem_trim_or_isBlank hc with htrim | hblank
      · exact isPlain_of_read? hn c htrim
      · have hblank : Unicode.blanks.contains c = true := hblank
        simp [isPlain, hblank]
    rw [Unicode.lowerFrom_eq_map hplain, Unicode.trim_map isBlank_lowerE, read?_map] at hn
    rw [normalize?_eq]
    split
    · rfl
    · rw [hn, Option.bind_some, hw]
      rfl

end IndexQuery.Numeral

namespace IndexQuery.Address

/-- An encoded number is no address. -/
theorem pad?_of_mem {text : List Char} (h : 'E' ∈ text) : pad? text = none := by
  cases hpad : pad? text with
  | none => rfl
  | some padded =>
    rcases (pad?_eq_some hpad).2 'E' h with hdigit | hdot | hblank
    · cases hdigit
    · exact absurd hdot (by decide)
    · exact absurd hblank (by decide)

/-- What is an address in lower case is the same text before. -/
theorem lowerFrom_eq_self {before text padded : List Char}
    (h : pad? (Unicode.lowerFrom before text) = some padded) :
    Unicode.lowerFrom before text = text := by
  have hchars := (pad?_eq_some h).2
  have hplain : ∀ c ∈ Unicode.lowerFrom before text, Unicode.isPlain c = true := by
    intro c hc
    rcases hchars c hc with hdigit | rfl | hblank
    · exact Numeral.isPlain_of_isDecimalDigit (Numeral.isDecimalDigit_of_isDigit hdigit)
    · rfl
    · have hblank : Unicode.blanks.contains c = true := hblank
      simp [Unicode.isPlain, hblank]
  rw [Unicode.lowerFrom_eq_map hplain] at hchars ⊢
  -- an `E` would have become an `e`, of which there is none
  rw [List.map_congr_left (g := id), List.map_id]
  intro c hc
  have himage := hchars (Unicode.lowerE c) (List.mem_map_of_mem hc)
  by_cases hE : c = 'E'
  · subst hE
    exact absurd himage (by decide)
  · exact if_neg hE

theorem takeWhile_octet {octet : List Char} (rest : List Char) (h : Octet octet) :
    (octet ++ '.' :: rest).takeWhile Unicode.isDecimalDigit = octet ∧
      (octet ++ '.' :: rest).dropWhile Unicode.isDecimalDigit = '.' :: rest :=
  Numeral.takeWhile_digits h.digits (by simpa using (by decide : Unicode.isDecimalDigit '.' = false))

/-- An address is no number, for it has too many dots. -/
theorem normalize?_of_pad? {text padded : List Char} (h : pad? text = some padded) :
    Numeral.normalize? padded = none := by
  have hencoded : Numeral.isEncoded padded = false := by
    rw [Bool.eq_false_iff]
    intro hencoded
    have hnone := pad?_of_mem (Numeral.mem_of_isEncoded hencoded)
    rw [pad?_pad? h] at hnone
    cases hnone
  obtain ⟨⟨a, b, c, d, ha, hb, hc, hd, rfl⟩, -⟩ := pad?_eq_some h
  -- there is no sign, and the second dot is no exponent
  have hsign : Numeral.takeSign (a ++ '.' :: (b ++ '.' :: (c ++ '.' :: d))) =
      (false, a ++ '.' :: (b ++ '.' :: (c ++ '.' :: d))) := by
    cases a with
    | nil => cases ha.length
    | cons first rest =>
      have hfirst := ha.digits first List.mem_cons_self
      rcases Numeral.takeSign_cases (first :: rest ++ '.' :: (b ++ '.' :: (c ++ '.' :: d)))
        with ⟨-, htext⟩ | ⟨-, htext⟩ | hsign
      · rw [(List.cons.inj htext).1] at hfirst
        cases hfirst
      · rw [(List.cons.inj htext).1] at hfirst
        cases hfirst
      · exact hsign
  have hread : Numeral.read? (a ++ '.' :: (b ++ '.' :: (c ++ '.' :: d))) = none := by
    obtain ⟨htake, hdrop⟩ := takeWhile_octet (b ++ '.' :: (c ++ '.' :: d)) ha
    obtain ⟨-, hdrop'⟩ := takeWhile_octet (c ++ '.' :: d) hb
    rw [Numeral.read?_eq, hsign]
    simp [Numeral.readUnsigned?, htake, hdrop, hdrop', Numeral.readExponent?]
  rw [Numeral.normalize?_eq, (trimmed_octets ha hb hc hd).trim_eq]
  simp [hencoded, hread]

end IndexQuery.Address
