import IndexQuery.Normalizer.Basic
import IndexQuery.Proofs.Normalizer.Numeral

/-! # Normal forms

    What a normalizer writes is its own normal form, and none of the others that
    refused the text takes it. The first of these needs digits that are those of
    ASCII, since the bytes of other digits are no digits.

    * `Normalizer.normalize_normalize`: normalizers are idempotent.
    * `Normalizer.refused_of_normalize`: a text that is refused stays so when another
      normalizer has changed it.
    * `Normalizer.normalizeRegex_accepts`: patterns that a normalizer writes it accepts.
-/

namespace IndexQuery

/-- A text without decimal digits outside ASCII. -/
def AsciiDigits (text : String) : Prop :=
  ∀ c ∈ text.toList, Unicode.isDecimalDigit c = true → c.isDigit = true

theorem asciiDigits_iff {text : String} : AsciiDigits text ↔
    (text.toList.all fun c => !Unicode.isDecimalDigit c || c.isDigit) = true := by
  rw [List.all_eq_true]
  simp only [AsciiDigits, Bool.or_eq_true, Bool.not_eq_true']
  constructor
  · intro h c hc
    cases hdigit : Unicode.isDecimalDigit c with
    | false => exact .inl rfl
    | true => exact .inr (h c hc hdigit)
  · intro h c hc hdigit
    rcases h c hc with hnone | hascii
    · rw [hdigit] at hnone
      cases hnone
    · exact hascii

instance (text : String) : Decidable (AsciiDigits text) := decidable_of_iff' _ asciiDigits_iff

namespace Normalizer

variable {n m : Normalizer} {text value : String}

/-- Normalizers of different names are different. -/
theorem ne_of_name (h : n.name ≠ m.name) : n ≠ m := fun hsame => h (congrArg name hsame)

theorem mem_stock : n ∈ stock ↔ n = noop ∨ n = lowercase ∨ n = number ∨ n = ip := by
  simp [stock]

/-- The normalizers in stock have different names. -/
theorem eq_of_name (hn : n ∈ stock) (hm : m ∈ stock) (h : n.name = m.name) : n = m := by
  rcases mem_stock.1 hn with rfl | rfl | rfl | rfl <;>
    rcases mem_stock.1 hm with rfl | rfl | rfl | rfl <;>
      first | rfl | exact absurd h (by decide)

/-- A value has a form if and only if its text has one. -/
theorem normalize_ofForm {name : String} {form : List Char → Noted (Option (List Char))} :
    (ofForm name form).normalize text = .ok value ↔
      (form text.toList).value = some value.toList := by
  simp only [normalize, ofForm, Noted.value_bind]
  cases (form text.toList).value with
  | none => simp
  | some w => simp [← String.toList_inj]

theorem normalize_lowercase : normalize .lowercase text = .ok value ↔
    Unicode.lowercase text = value := by
  simp [normalize, lowercase]

theorem normalize_number : normalize .number text = .ok value ↔
    Numeral.normalize? text.toList = some value.toList :=
  normalize_ofForm

theorem normalize_ip : normalize .ip text = .ok value ↔
    Address.pad? text.toList = some value.toList :=
  normalize_ofForm

/-- Normalizers are idempotent on texts without digits of other scripts. -/
theorem normalize_normalize (hn : n ∈ stock) (hascii : AsciiDigits text)
    (h : n.normalize text = .ok value) : n.normalize value = .ok value := by
  rcases mem_stock.1 hn with rfl | rfl | rfl | rfl
  · rfl
  · rw [normalize_lowercase] at h ⊢
    rw [← h, Unicode.lowercase_lowercase]
  · rw [normalize_number] at h ⊢
    exact Numeral.normalize?_normalize? hascii h
  · rw [normalize_ip] at h ⊢
    exact Address.pad?_pad? h

/-- A text that is no number is none in lower case, and no padded address is a number. -/
theorem refused_number (hm : m ∈ stock) (h : m.normalize text = .ok value)
    (hrefused : ∀ w, normalize .number text ≠ .ok w) (w : String) :
    normalize .number value ≠ .ok w := by
  intro hw
  rcases mem_stock.1 hm with rfl | rfl | rfl | rfl
  · cases h
    exact hrefused w hw
  · -- a capital E in a number makes the only difference, and it is read like the small one
    rw [← normalize_lowercase.1 h, normalize_number, Unicode.lowercase, String.toList_ofList] at hw
    obtain ⟨u, hu⟩ := Option.isSome_iff_exists.1 (Numeral.isSome_of_lowerFrom hw)
    exact hrefused (String.ofList u) (normalize_number.2 (by rw [hu, String.toList_ofList]))
  · exact hrefused value h
  · rw [normalize_ip] at h
    rw [normalize_number, Address.normalize?_of_pad? h] at hw
    cases hw

/-- A text that is no address is none in lower case, and no encoded number is one. -/
theorem refused_ip (hm : m ∈ stock) (h : m.normalize text = .ok value)
    (hrefused : ∀ w, normalize .ip text ≠ .ok w) (w : String) :
    normalize .ip value ≠ .ok w := by
  intro hw
  rcases mem_stock.1 hm with rfl | rfl | rfl | rfl
  · cases h
    exact hrefused w hw
  · rw [← normalize_lowercase.1 h, normalize_ip, Unicode.lowercase, String.toList_ofList] at hw
    rw [Address.lowerFrom_eq_self hw, ← normalize_ip] at hw
    exact hrefused w hw
  · rw [normalize_number] at h
    rw [normalize_ip, Address.pad?_of_mem (Numeral.mem_of_normalize? h)] at hw
    cases hw
  · exact hrefused value h

/-- What a normalizer refuses it still refuses when another one has changed it. -/
theorem refused_of_normalize (hn : n ∈ stock) (hm : m ∈ stock) (h : m.normalize text = .ok value)
    (hrefused : ∀ w, n.normalize text ≠ .ok w) (w : String) : n.normalize value ≠ .ok w := by
  rcases mem_stock.1 hn with rfl | rfl | rfl | rfl
  · exact absurd rfl (hrefused text)
  · exact absurd rfl (hrefused (Unicode.lowercase text))
  · exact refused_number hm h hrefused w
  · exact refused_ip hm h hrefused w

/-! ## Patterns -/

/-- A protected character stands for itself. -/
theorem not_isAlphanumeric_of_needsEscape {c : Char} (h : needsEscape c = true) :
    Unicode.isAlphanumeric c = false := by
  simp only [needsEscape, isMetacharacter, Bool.or_eq_true, List.contains_iff_mem, List.mem_cons,
    List.not_mem_nil, or_false] at h
  rcases h with
    (rfl | rfl | rfl | rfl | rfl | rfl | rfl | rfl | rfl | rfl | rfl | rfl | rfl) |
      (rfl | rfl | rfl | rfl | rfl) <;> decide +kernel

/-- The pattern for a text matches this text. -/
theorem fixedText?_escapePattern (text : List Char) : fixedText? (escapePattern text) = some text := by
  induction text with
  | nil => rfl
  | cons c rest ih =>
    rw [escapePattern, List.flatMap_cons]
    have ih : fixedText? (rest.flatMap fun c => if needsEscape c then [backslash, c] else [c]) =
        some rest := ih
    by_cases hescape : needsEscape c = true
    · rw [if_pos hescape, List.cons_append, List.singleton_append, fixedText?, if_pos rfl]
      simp [not_isAlphanumeric_of_needsEscape hescape, ih]
    · have hplain : c ≠ backslash ∧ isMetacharacter c = false := by
        simp only [needsEscape, Bool.or_eq_true, not_or, List.contains_iff_mem, List.mem_cons,
          Bool.not_eq_true] at hescape
        exact ⟨hescape.2.1, hescape.1⟩
      rw [if_neg hescape, List.singleton_append, fixedText?.eq_def]
      simp [hplain.1, hplain.2, ih]

/-- The text of a pattern has no characters beyond those of the pattern. -/
theorem mem_of_fixedText? {pattern text : List Char} (h : fixedText? pattern = some text) :
    ∀ c ∈ text, c ∈ pattern := by
  fun_induction fixedText? pattern generalizing text with
  | case1 =>
    cases h
    simp
  | case2 => cases h
  | case3 next rest hnext => cases h
  | case4 next rest hnext ih =>
    obtain ⟨text', htext, rfl⟩ := Option.map_eq_some_iff.1 h
    intro x hx
    rcases List.mem_cons.1 hx with rfl | hx
    · simp
    · simp [ih htext x hx]
  | case5 c rest hc hmeta => cases h
  | case6 c rest hc hmeta ih =>
    obtain ⟨text', htext, rfl⟩ := Option.map_eq_some_iff.1 h
    intro x hx
    rcases List.mem_cons.1 hx with rfl | hx
    · simp
    · simp [ih htext x hx]

/-- A normalizer of forms takes the pattern for a single text that has a form. -/
theorem normalizeRegex_ofForm {name : String} {form : List Char → Noted (Option (List Char))} :
    (ofForm name form).normalizeRegex text = .ok value ↔
      ∃ fixed w, fixedText? text.toList = some fixed ∧ (form fixed).value = some w ∧
        escapePattern w = value.toList := by
  simp only [normalizeRegex, ofForm]
  cases fixedText? text.toList with
  | none => simp
  | some fixed => cases hform : (form fixed).value <;> simp [hform, ← String.toList_inj]

theorem normalizeRegex_number : normalizeRegex .number text = .ok value ↔
    ∃ fixed w, fixedText? text.toList = some fixed ∧ Numeral.normalize? fixed = some w ∧
      escapePattern w = value.toList :=
  normalizeRegex_ofForm

theorem normalizeRegex_ip : normalizeRegex .ip text = .ok value ↔
    ∃ fixed w, fixedText? text.toList = some fixed ∧ Address.pad? fixed = some w ∧
      escapePattern w = value.toList :=
  normalizeRegex_ofForm

/-- A normalizer accepts the patterns that it writes. -/
theorem normalizeRegex_accepts (hn : n ∈ stock) (hascii : AsciiDigits text)
    (h : n.normalizeRegex text = .ok value) : ∃ w, n.normalizeRegex value = .ok w := by
  rcases mem_stock.1 hn with rfl | rfl | rfl | rfl
  · exact ⟨value, rfl⟩
  · exact ⟨_, rfl⟩
  · obtain ⟨fixed, w, hfixed, hw, hvalue⟩ := normalizeRegex_number.1 h
    have hdigits : ∀ c ∈ fixed, Unicode.isDecimalDigit c = true → c.isDigit = true :=
      fun c hc => hascii c (mem_of_fixedText? hfixed c hc)
    have hidempotent := Numeral.normalize?_normalize? hdigits hw
    refine ⟨value, normalizeRegex_number.2 ⟨w, w, ?_, hidempotent, hvalue⟩⟩
    rw [← hvalue, fixedText?_escapePattern]
  · obtain ⟨fixed, w, hfixed, hw, hvalue⟩ := normalizeRegex_ip.1 h
    refine ⟨value, normalizeRegex_ip.2 ⟨w, w, ?_, Address.pad?_pad? hw, hvalue⟩⟩
    rw [← hvalue, fixedText?_escapePattern]

end Normalizer

end IndexQuery
