import IndexQuery.Proofs.Normalizer.Basic

/-! # Digits of other scripts

    A digit outside ASCII counts as one in a numeral, but its bytes are taken for
    digits. This module says what that leads to.

    * `Numeral.overflow_normalize_iff`: the arithmetic leaves its range for negative
      numbers with such a digit, and only for them.
    * `Normalizer.idempotent_iff`: what a normalizer writes it keeps, unless it is the
      number of a text with such a digit.
-/

namespace IndexQuery

open Unicode (isBlank isDecimalDigit)

/-! ## White space at the end -/

/-- Two characters in front that are no white space are not trimmed. -/
theorem Unicode.exists_trim_cons_cons {a b : Char} (rest : List Char) (ha : isBlank a = false)
    (hb : isBlank b = false) : ∃ rest', trim (a :: b :: rest) = a :: b :: rest' := by
  have hstart : trimStart (a :: b :: rest) = a :: b :: rest := by
    rw [trimStart, List.dropWhile_cons_of_neg (by simp [ha])]
  have hkeep : [b, a].dropWhile isBlank = [b, a] := by
    rw [List.dropWhile_cons_of_neg (by simp [hb])]
  have hreverse : (a :: b :: rest).reverse = rest.reverse ++ [b, a] := by simp
  rw [trim, hstart, hreverse, trimStart, List.dropWhile_append, hkeep]
  split
  · exact ⟨[], rfl⟩
  · exact ⟨(rest.reverse.dropWhile isBlank).reverse, by simp⟩

namespace Numeral

/-! ## Overflow -/

/-- The arithmetic on a text leaves its range when it is a negative numeral that is not
    refused and has a digit outside ASCII, and only then. -/
theorem overflow_normalize_iff (text : String) :
    (normalize text.toList).overflow = true ↔
      isEncoded (Unicode.trim text.toList) = false ∧
        ∃ n, read? (Unicode.trim text.toList) = some n ∧ n.negative = true ∧
          n.scale.value ≠ .refused ∧ ¬ n.Ascii := by
  unfold normalize
  dsimp only
  by_cases hencoded : isEncoded (Unicode.trim text.toList) = true
  · simp [hencoded]
  · rw [if_neg hencoded]
    cases hread : read? (Unicode.trim text.toList) with
    | none => simp
    | some n =>
      have hoverflow := overflow_encode (digital_of_read? hread)
      simpa [hencoded] using hoverflow

/-- The text `-٣` leaves the range. -/
theorem not_forall_overflow_eq_false :
    ¬ ∀ text : String, (normalize text.toList).overflow = false := by
  intro hall
  have hscript : (normalize "-٣".toList).overflow = true := by decide +kernel
  rw [hall "-٣"] at hscript
  cases hscript

/-! ## Normal forms -/

/-- Whether a text is an encoded number, or none with a digit outside ASCII. -/
def Western (text : List Char) : Prop :=
  isEncoded (Unicode.trim text) = true ∨ ∀ n ∈ read? (Unicode.trim text), n.Ascii

instance (text : List Char) : Decidable (Western text) :=
  inferInstanceAs (Decidable (_ ∨ ∀ n ∈ read? (Unicode.trim text), n.Ascii))

/-- From ten on, a byte is written in more than one digit. -/
theorem toString_table : ∀ k : Fin 208, 10 ≤ k.val →
    (match (toString k.val).toList with
      | _ :: d :: _ => d != '.'
      | _ => false) = true := by
  decide +kernel

theorem exists_toString {d : UInt8} (hlow : 10 ≤ d.toNat) (hhigh : d.toNat ≤ 207) :
    ∃ c e rest, (toString d.toNat).toList = c :: e :: rest ∧ e ≠ '.' := by
  have htable := toString_table ⟨d.toNat, by omega⟩ hlow
  split at htable
  · rename_i c e rest heq
    exact ⟨c, e, rest, heq, by simpa using htable⟩
  · cases htable

/-- Behind its first digit an encoded number has nothing, or a point with digits. -/
theorem rest_of_isEncoded {sign letter first : Char} {rest : List Char}
    (h : isEncoded (sign :: letter :: 'E' :: first :: rest) = true) :
    rest = [] ∨ ∃ digits, rest = '.' :: digits ∧ ∀ c ∈ digits, isDecimalDigit c = true := by
  simp only [isEncoded, Bool.and_eq_true] at h
  obtain ⟨-, hrest⟩ := h
  split at hrest
  · exact .inl rfl
  · rw [Bool.and_eq_true] at hrest
    exact .inr ⟨_, rfl, List.all_eq_true.1 hrest.2⟩
  · cases hrest

/-- The text of a number beyond ten is no digit. -/
theorem isDecimalDigit_digitChar {d : UInt8} (hlow : 58 ≤ d.toNat) (hhigh : d.toNat ≤ 207) :
    isDecimalDigit (digitChar d).value = false := by
  have hsum : (Word.addByte zeroByte d).value.toNat = 48 + d.toNat :=
    (Word.addByte_of_lt (a := zeroByte) (b := d) (by
      show 48 + d.toNat < 256
      omega)).2
  have hcode : (digitChar d).value.toNat = 48 + d.toNat := by
    have hvalid : (48 + d.toNat).isValidChar := .inl (by omega)
    rw [digitChar, Noted.value_map, charOf, hsum, Char.ofNat, dif_pos hvalid]
    rfl
  exact isDecimalDigit_of_between (by omega) (by omega)

/-- Where a number beyond ten is written for a digit, something else than a point with
    digits follows the first character. -/
theorem mantissa_of_mem {ds : List UInt8} {d : UInt8} (hd : d ∈ ds) (hlow : 58 ≤ d.toNat)
    (hle : ∀ x ∈ ds, x.toNat ≤ 207) :
    ∃ first rest, (mantissa ds).value = first :: rest ∧ rest ≠ [] ∧
      ∀ digits, rest = '.' :: digits → ∃ c ∈ digits, isDecimalDigit c = false := by
  fun_cases mantissa ds
  · cases hd
  · -- the only digit is written as a number of several digits
    obtain rfl := List.mem_singleton.1 hd
    obtain ⟨c, e, rest, htext, hpoint⟩ := exists_toString (by omega) (hle d hd)
    refine ⟨c, e :: rest, htext, by simp, ?_⟩
    intro digits hdigits
    exact absurd (List.cons.inj hdigits).1 hpoint
  · rename_i first rest _
    have hfirst := hle first List.mem_cons_self
    by_cases hten : 10 ≤ first.toNat
    · -- so is the first one
      obtain ⟨c, e, more, htext, hpoint⟩ := exists_toString hten hfirst
      simp only [Noted.value_bind, Noted.value_pure, htext, List.cons_append]
      refine ⟨_, _, rfl, by simp, ?_⟩
      intro digits hdigits
      exact absurd (List.cons.inj hdigits).1 hpoint
    · -- the number stands behind the point, where it is no digit
      have hd : d ∈ rest := by
        rcases List.mem_cons.1 hd with rfl | hd
        · omega
        · exact hd
      simp only [Noted.value_bind, Noted.value_pure, (digitChar_spec (by omega : first.toNat ≤ 9)).1,
        List.cons_append, List.nil_append]
      refine ⟨_, _, rfl, by simp, ?_⟩
      intro digits hdigits
      obtain rfl := (List.cons.inj hdigits).2
      have hle := hle d (List.mem_cons_of_mem _ hd)
      exact ⟨_, List.mem_map_of_mem hd, isDecimalDigit_digitChar hlow hle⟩

theorem not_isEncoded_mantissa {sign letter : Char} {ds : List UInt8} {d : UInt8} (hd : d ∈ ds)
    (hlow : 58 ≤ d.toNat) (hle : ∀ x ∈ ds, x.toNat ≤ 207) :
    isEncoded (sign :: letter :: 'E' :: (mantissa ds).value) = false := by
  obtain ⟨first, rest, hvalue, hne, hdigits⟩ := mantissa_of_mem hd hlow hle
  rw [hvalue, Bool.eq_false_iff]
  intro hencoded
  rcases rest_of_isEncoded hencoded with hnil | ⟨digits, hrest, hall⟩
  · exact hne hnil
  · obtain ⟨c, hc, hnone⟩ := hdigits digits hrest
    rw [hall c hc] at hnone
    cases hnone

/-- What is written of a numeral with a digit outside ASCII is not kept. -/
theorem Scaled.normalize?_write_ne {n : Numeral} {m : Int32} {ds : List UInt8} (h : n.Scaled m ds)
    (hdigital : n.Digital) (hascii : ¬ n.Ascii) :
    normalize? (write n.negative m ds).value ≠ some (write n.negative m ds).value := by
  obtain ⟨d, hd, hlow, hhigh⟩ := h.exists_of_not_ascii hdigital hascii
  obtain ⟨sign, letter, hsign, hletter, hvalue⟩ := value_write_cases n.negative ds h.bound
  -- the digits that are written have a number beyond ten
  have hwritten : ∃ cs : List UInt8, (if n.negative then (complement ds).value else ds) = cs ∧
      (∃ c ∈ cs, 58 ≤ c.toNat) ∧ ∀ x ∈ cs, x.toNat ≤ 207 := by
    split
    · obtain ⟨-, c, hc, hbeyond, -⟩ := complement_of_mem hd hlow hhigh
      exact ⟨_, rfl, ⟨c, hc, hbeyond⟩, complement_le (h.range hdigital)⟩
    · refine ⟨ds, rfl, ⟨d, hd, by omega⟩, ?_⟩
      intro x hx
      have hrange := h.range hdigital x hx
      omega
  obtain ⟨cs, hcs, ⟨c, hc, hbeyond⟩, hle⟩ := hwritten
  rw [hcs] at hvalue
  have hencoded : isEncoded (sign :: letter :: 'E' :: (mantissa cs).value) = false :=
    not_isEncoded_mantissa hc hbeyond hle
  have hblank : isBlank sign = false := by
    rcases hsign with rfl | rfl <;> rfl
  obtain ⟨rest, htrim⟩ := Unicode.exists_trim_cons_cons ('E' :: (mantissa cs).value) hblank
    (isBlank_of_isAlpha hletter)
  rw [hvalue, normalize?_eq]
  split
  · -- the text would be kept only if it were an encoded number
    rename_i hkept
    intro hsame
    rw [Option.some.inj hsame, hencoded] at hkept
    cases hkept
  · rw [htrim, read?_of_isAlpha hsign hletter]
    simp

/-- What is written of a text is kept if the text is western, and only then. -/
theorem normalize?_iff_western {text w : List Char} (h : normalize? text = some w) :
    normalize? w = some w ↔ Western text := by
  constructor
  · intro hkept
    rcases normalize?_eq_some h with ⟨hencoded, -⟩ | ⟨n, hread, hdigital, hw⟩
    · exact .inl hencoded
    · refine .inr fun n' hread' => ?_
      rw [hread] at hread'
      cases hread'
      apply Classical.not_not.1
      intro hascii
      rcases value_encode hdigital hw with ⟨hzero, -⟩ | ⟨m, ds, hscaled, rfl⟩
      · exact hascii (ascii_of_zero hdigital hzero)
      · exact hscaled.normalize?_write_ne hdigital hascii hkept
  · intro hwestern
    rcases normalize?_eq_some h with ⟨hencoded, rfl⟩ | ⟨n, hread, -, hw⟩
    · exact normalize?_of_isEncoded hencoded (Unicode.trimmed_trim text)
    · rcases hwestern with hencoded | hascii
      · rw [normalize?_eq, if_pos hencoded] at h
        cases h
        exact normalize?_of_isEncoded hencoded (Unicode.trimmed_trim text)
      · exact normalize?_of_encode (hascii n hread) hw

end Numeral

namespace Normalizer

open Unicode (IsLower lowerChar)

/-! ### Patterns -/

/-- A text of lower case without backslashes stays in a pattern. -/
theorem lowercasePattern_append {cs : List Char} (rest : List Char)
    (h : ∀ c ∈ cs, IsLower c ∧ c ≠ backslash) :
    lowercasePattern (cs ++ rest) = cs ++ lowercasePattern rest := by
  induction cs with
  | nil => rfl
  | cons c cs ih =>
    obtain ⟨⟨hlower, hplain⟩, hcs⟩ := List.forall_mem_cons.1 h
    rw [List.cons_append, lowercasePattern.eq_def]
    simp only [if_neg hplain, Unicode.lowerChar_of_isLower hlower, ih hcs, List.cons_append,
      List.nil_append]

/-- Lower case of patterns is idempotent. -/
theorem lowercasePattern_lowercasePattern (pattern : List Char) :
    lowercasePattern (lowercasePattern pattern) = lowercasePattern pattern := by
  fun_induction lowercasePattern pattern with
  | case1 => rfl
  | case2 => rfl
  | case3 next rest ih =>
    rw [lowercasePattern, if_pos rfl]
    simp only [ih]
  | case4 c rest hplain ih =>
    rw [lowercasePattern_append, ih]
    intro x hx
    refine ⟨Unicode.isLower_of_mem_lowerChar hx, ?_⟩
    -- no other character has a backslash for its lower case
    rcases Unicode.eq_or_lt_of_mem_lowerChar hx with rfl | hletter
    · exact hplain
    · rintro rfl
      exact absurd hletter (by decide)

variable {n : Normalizer} {text value : String}

/-- A normal form is kept, unless it is the number of a text that is not western. -/
theorem normalize_eq_self_iff (hn : n ∈ stock) (h : n.normalize text = .ok value) :
    n.normalize value = .ok value ↔ (n = .number → Numeral.Western text.toList) := by
  rcases mem_stock.1 hn with rfl | rfl | rfl | rfl
  · exact iff_of_true rfl fun hnumber => absurd hnumber (ne_of_name (by decide))
  · rw [normalize_lowercase] at h
    refine iff_of_true ?_ fun hnumber => absurd hnumber (ne_of_name (by decide))
    rw [normalize_lowercase, ← h, Unicode.lowercase_lowercase]
  · rw [normalize_number] at h
    rw [normalize_number, Numeral.normalize?_iff_western h]
    simp
  · rw [normalize_ip] at h
    refine iff_of_true ?_ fun hnumber => absurd hnumber (ne_of_name (by decide))
    rw [normalize_ip, Address.pad?_pad? h]

/-- The pattern for a text in a form is kept if the text is. -/
theorem normalizeRegex_escapePattern {name : String}
    {form : List Char → Noted (Option (List Char))} {w : List Char}
    (hvalue : escapePattern w = value.toList) :
    (ofForm name form).normalizeRegex value = .ok value ↔ (form w).value = some w := by
  rw [normalizeRegex_ofForm, ← hvalue, fixedText?_escapePattern]
  constructor
  · rintro ⟨fixed, w', hfixed, hw', hescape⟩
    cases hfixed
    -- a pattern has one text
    have hsame := congrArg fixedText? hescape
    rw [fixedText?_escapePattern, fixedText?_escapePattern] at hsame
    rw [hw', Option.some.inj hsame]
  · intro hw
    exact ⟨w, w, rfl, hw, rfl⟩

/-- A normal form of a pattern is kept, unless it is the number of a text that is not
    western. -/
theorem normalizeRegex_eq_self_iff (hn : n ∈ stock) (h : n.normalizeRegex text = .ok value) :
    n.normalizeRegex value = .ok value ↔
      (n = .number → ∀ fixed, fixedText? text.toList = some fixed → Numeral.Western fixed) := by
  rcases mem_stock.1 hn with rfl | rfl | rfl | rfl
  · exact iff_of_true rfl fun hnumber => absurd hnumber (ne_of_name (by decide))
  · cases h
    refine iff_of_true ?_ fun hnumber => absurd hnumber (ne_of_name (by decide))
    simp [normalizeRegex, lowercase, lowercasePattern_lowercasePattern]
  · obtain ⟨fixed, w, hfixed, hw, hvalue⟩ := normalizeRegex_number.1 h
    have hkept : normalizeRegex .number value = .ok value ↔ Numeral.normalize? w = some w :=
      normalizeRegex_escapePattern hvalue
    rw [hkept, Numeral.normalize?_iff_western hw]
    simp [hfixed]
  · obtain ⟨fixed, w, -, hw, hvalue⟩ := normalizeRegex_ip.1 h
    refine iff_of_true ?_ fun hnumber => absurd hnumber (ne_of_name (by decide))
    exact (normalizeRegex_escapePattern hvalue).2 (Address.pad?_pad? hw)

/-- Normalizers in stock are idempotent on texts and on patterns, but for the numbers of
    texts that are not western: those are never kept. -/
theorem idempotent_iff (n : Normalizer) (hn : n ∈ stock) (text : String) :
    (∀ value, n.normalize text = .ok value →
      (n.normalize value = .ok value ↔ (n = .number → Numeral.Western text.toList))) ∧
    ∀ value, n.normalizeRegex text = .ok value →
      (n.normalizeRegex value = .ok value ↔
        (n = .number → ∀ fixed, fixedText? text.toList = some fixed → Numeral.Western fixed)) :=
  ⟨fun _ h => normalize_eq_self_iff hn h, fun _ h => normalizeRegex_eq_self_iff hn h⟩

/-- A negative number with a point is western. -/
theorem idempotent_negativeNumber :
    number ∈ stock ∧
      (normalize .number "-1.5" = .ok "!ZE8.5" ∧ normalize .number "!ZE8.5" = .ok "!ZE8.5") ∧
        normalizeRegex .number "-1\\.5" = .ok "!ZE8\\.5" ∧
          normalizeRegex .number "!ZE8\\.5" = .ok "!ZE8\\.5" := by
  have hstock : number ∈ stock := mem_stock.2 (.inr (.inr (.inl rfl)))
  have hnumber : Numeral.normalize? "-1.5".toList = some "!ZE8.5".toList := by decide +kernel
  have hwestern : Numeral.Western "-1.5".toList := by decide +kernel
  have hfixed : fixedText? "-1\\.5".toList = some "-1.5".toList := by decide +kernel
  have hescape : escapePattern "!ZE8.5".toList = "!ZE8\\.5".toList := by decide +kernel
  have hvalue : normalize .number "-1.5" = .ok "!ZE8.5" := normalize_number.2 hnumber
  have hpattern : normalizeRegex .number "-1\\.5" = .ok "!ZE8\\.5" :=
    normalizeRegex_number.2 ⟨_, _, hfixed, hnumber, hescape⟩
  refine ⟨hstock, ⟨hvalue, ?_⟩, hpattern, ?_⟩
  · exact ((idempotent_iff .number hstock "-1.5").1 _ hvalue).2 fun _ => hwestern
  · refine ((idempotent_iff .number hstock "-1\\.5").2 _ hpattern).2 fun _ fixed h => ?_
    rw [hfixed] at h
    cases h
    exact hwestern

/-- The number of the digit `٣` is refused by the normalizer that writes it. -/
theorem not_forall_idempotent :
    ¬ ∀ n ∈ stock, ∀ text value : String,
      (n.normalize text = .ok value → n.normalize value = .ok value) ∧
        (n.normalizeRegex text = .ok value → n.normalizeRegex value = .ok value) := by
  intro hall
  have hvalue : Numeral.normalize? "٣".toList = some "+bE169.£".toList := by decide +kernel
  have hrefused : Numeral.normalize? "+bE169.£".toList = none := by decide +kernel
  have hstock : number ∈ stock := mem_stock.2 (.inr (.inr (.inl rfl)))
  have hkept := (hall .number hstock "٣" "+bE169.£").1 (normalize_number.2 hvalue)
  rw [normalize_number, hrefused] at hkept
  cases hkept

end Normalizer

end IndexQuery
