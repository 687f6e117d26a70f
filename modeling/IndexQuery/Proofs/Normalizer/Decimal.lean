import IndexQuery.Proofs.Normalizer.Numeral
import Mathlib.Algebra.Order.Field.Power
import Mathlib.Algebra.Order.Field.Rat
import Mathlib.Data.List.Induction
import Mathlib.Tactic.FieldSimp
import Mathlib.Tactic.Ring

/-! # Decimals

    A decimal in ASCII is a sign, digits with a point among or around them, and an
    exponent, of which only the digits are required. This module gives the number that it
    writes, and follows this number through the reader and through its arithmetic.

    * `Decimal.read?_text`: every decimal is read, part by part.
    * `Decimal.value_of_scaled`: the number is its significant digits with their power
      of ten.
    * `Decimal.value_of_zero`: a decimal whose digits are zeros writes zero.
-/

namespace IndexQuery

open Unicode (isDecimalDigit)

/-! ## Decimals and their numbers -/

/-- A sign in front of digits, if there is one. -/
inductive Sign where
  | none
  | plus
  | minus
deriving DecidableEq, Repr, Inhabited

namespace Sign

def text : Sign → List Char
  | none => []
  | plus => ['+']
  | minus => ['-']

def factor : Sign → Int
  | none | plus => 1
  | minus => -1

end Sign

/-- The exponent of a decimal. -/
structure Exponent where
  letter : Char
  sign : Sign
  digits : List Char
  letter_eq : letter = 'e' ∨ letter = 'E'
  ascii : ∀ c ∈ digits, c.isDigit = true
  ne_nil : digits ≠ []

namespace Exponent

def text (x : Exponent) : List Char := x.letter :: (x.sign.text ++ x.digits)

def value (x : Exponent) : Int := x.sign.factor * Address.decimalValue x.digits

end Exponent

/-- A decimal in ASCII digits. -/
structure Decimal where
  sign : Sign
  whole : List Char
  /-- The digits behind the point, if there is one. -/
  fraction : Option (List Char)
  exponent : Option Exponent
  ascii : ∀ c ∈ whole ++ fraction.getD [], c.isDigit = true
  ne_nil : whole ++ fraction.getD [] ≠ []

namespace Decimal

/-- A decimal as it is written. -/
def text (d : Decimal) : List Char :=
  d.sign.text ++ (d.whole ++ (d.fraction.elim [] ('.' :: ·) ++ d.exponent.elim [] Exponent.text))

/-- The power of ten that the exponent stands for. -/
def power (d : Decimal) : Int := d.exponent.elim 0 Exponent.value

/-- The number that a decimal writes: its digits as one whole number, which the exponent
    and the place of the point move. -/
def value (d : Decimal) : ℚ :=
  d.sign.factor * Address.decimalValue (d.whole ++ d.fraction.getD []) *
    10 ^ (d.power - (d.fraction.getD []).length)

/-- The parts of a decimal that the reader gives. -/
def numeral (d : Decimal) : Numeral where
  negative := decide (d.sign = .minus)
  whole := d.whole
  fraction := d.fraction.getD []
  exponent := d.exponent.map fun x => x.sign.text ++ x.digits

end Decimal

/-! ## Reading -/

namespace Numeral

/-- A sign is taken off the front of what has none. -/
theorem takeSign_text (s : Sign) {c : Char} (rest : List Char) (hminus : c ≠ '-') (hplus : c ≠ '+') :
    takeSign (s.text ++ c :: rest) = (decide (s = .minus), c :: rest) := by
  cases s with
  | none =>
    rcases takeSign_cases (c :: rest) with ⟨-, htext⟩ | ⟨-, htext⟩ | hsign
    · exact absurd (List.cons.inj htext).1 hminus
    · exact absurd (List.cons.inj htext).1 hplus
    · exact hsign
  | plus => rfl
  | minus => rfl

theorem ne_sign_of_isDigit {c : Char} (h : c.isDigit = true) : c ≠ '-' ∧ c ≠ '+' := by
  constructor <;> (rintro rfl; cases h)

/-- The same in front of digits. -/
theorem takeSign_digits (s : Sign) {ds : List Char} (hds : ∀ c ∈ ds, c.isDigit = true)
    (hne : ds ≠ []) : takeSign (s.text ++ ds) = (decide (s = .minus), ds) := by
  cases ds with
  | nil => exact absurd rfl hne
  | cons c rest =>
    obtain ⟨hminus, hplus⟩ := ne_sign_of_isDigit (hds c List.mem_cons_self)
    exact takeSign_text s rest hminus hplus

theorem readExponent?_text (x : Exponent) :
    readExponent? x.text = some (some (x.sign.text ++ x.digits)) := by
  have hletter : (decide (x.letter = 'e') || decide (x.letter = 'E')) = true := by
    simpa using x.letter_eq
  have hexponent : isExponent (x.sign.text ++ x.digits) = true := by
    have hall : x.digits.all isDecimalDigit = true :=
      List.all_eq_true.2 fun c hc => isDecimalDigit_of_isDigit (x.ascii c hc)
    rw [isExponent, takeSign_digits x.sign x.ascii x.ne_nil]
    simpa [hall] using x.ne_nil
  rw [Exponent.text, readExponent?, hletter, hexponent]
  rfl

theorem exponentValue?_text (x : Exponent) :
    exponentValue? (x.sign.text ++ x.digits) = Word.ofInt? x.value := by
  have hsome : x.digits.isEmpty = false := by simpa using x.ne_nil
  have hall : x.digits.all Char.isDigit = true := List.all_eq_true.2 x.ascii
  have hvalue : x.value =
      if x.sign = .minus then -(Address.decimalValue x.digits : Int)
      else Address.decimalValue x.digits := by
    unfold Exponent.value
    cases x.sign <;> simp [Sign.factor]
  unfold exponentValue?
  rw [takeSign_digits x.sign x.ascii x.ne_nil]
  simp [hsome, hall, hvalue]

end Numeral

namespace Decimal

open Numeral

variable {d : Decimal}

theorem ascii_numeral (d : Decimal) : d.numeral.Ascii := d.ascii

/-- Behind the digits of the mantissa stands no digit. -/
theorem head?_exponent (d : Decimal) :
    ∀ c ∈ (d.exponent.elim [] Exponent.text).head?, isDecimalDigit c = false := by
  intro c hc
  cases hexponent : d.exponent with
  | none =>
    rw [hexponent] at hc
    cases hc
  | some x =>
    rw [hexponent] at hc
    have hletter : x.letter = c := by simpa [Exponent.text] using hc
    rw [← hletter]
    rcases x.letter_eq with hx | hx <;> rw [hx] <;> decide

theorem readExponent?_exponent (d : Decimal) :
    readExponent? (d.exponent.elim [] Exponent.text) = some d.numeral.exponent := by
  unfold numeral
  cases d.exponent with
  | none => rfl
  | some x => exact readExponent?_text x

/-- A decimal without its sign is read. -/
theorem readUnsigned?_text (d : Decimal) (negative : Bool) :
    readUnsigned? negative
        (d.whole ++ (d.fraction.elim [] ('.' :: ·) ++ d.exponent.elim [] Exponent.text)) =
      some ⟨negative, d.whole, d.fraction.getD [], d.numeral.exponent⟩ := by
  have hascii := d.ascii
  have hne := d.ne_nil
  have hwhole : ∀ c ∈ d.whole, c.isDigit = true :=
    fun c hc => hascii c (List.mem_append_left _ hc)
  cases hfraction : d.fraction with
  | none =>
    -- without a point the mantissa ends in front of the exponent
    have hsome : d.whole.isEmpty = false := by simpa [hfraction] using hne
    obtain ⟨htake, hdrop⟩ := takeWhile_digits hwhole d.head?_exponent
    simp only [Option.elim_none, List.nil_append]
    rw [readUnsigned?_of_ne, htake, hdrop, d.readExponent?_exponent]
    · simp [hsome]
    · intro rest hrest
      rw [hdrop] at hrest
      cases hexponent : d.exponent with
      | none => simp [hexponent] at hrest
      | some x =>
        have hletter : x.letter = '.' := by
          rw [hexponent] at hrest
          exact (List.cons.inj hrest).1
        rcases x.letter_eq with hx | hx <;> (rw [hx] at hletter; cases hletter)
  | some fs =>
    have hfs : ∀ c ∈ fs, c.isDigit = true :=
      fun c hc => hascii c (by simp [hfraction, hc])
    have hsome : (d.whole.isEmpty && fs.isEmpty) = false := by
      rw [hfraction] at hne
      simpa [List.append_eq_nil_iff] using hne
    have hpoint : ∀ c ∈ ('.' :: (fs ++ d.exponent.elim [] Exponent.text)).head?,
        isDecimalDigit c = false := by
      intro c hc
      cases hc
      decide
    obtain ⟨htake, hdrop⟩ := takeWhile_digits hwhole hpoint
    obtain ⟨htake', hdrop'⟩ := takeWhile_digits hfs d.head?_exponent
    simp only [Option.elim_some, List.cons_append]
    unfold readUnsigned?
    simp [htake, hdrop, htake', hdrop', hsome, d.readExponent?_exponent]

/-- Every decimal is read. -/
theorem read?_text (d : Decimal) : read? d.text = some d.numeral := by
  -- behind the sign stands a digit or the point
  obtain ⟨c, rest, hbody, hminus, hplus⟩ : ∃ c rest,
      d.whole ++ (d.fraction.elim [] ('.' :: ·) ++ d.exponent.elim [] Exponent.text) = c :: rest ∧
        c ≠ '-' ∧ c ≠ '+' := by
    cases hwhole : d.whole with
    | cons c rest =>
      have hc := ne_sign_of_isDigit (d.ascii c (by simp [hwhole]))
      exact ⟨c, _, rfl, hc⟩
    | nil =>
      cases hfraction : d.fraction with
      | none => exact absurd (by simp [hwhole, hfraction]) d.ne_nil
      | some fs => exact ⟨'.', _, rfl, by decide, by decide⟩
  rw [read?_eq, text, hbody, takeSign_text d.sign rest hminus hplus, ← hbody, readUnsigned?_text]
  rfl

/-- A decimal is no encoded number. -/
theorem isEncoded_text (d : Decimal) : isEncoded d.text = false := by
  rw [Bool.eq_false_iff]
  intro hencoded
  have hread := d.read?_text
  rw [read?_of_isEncoded hencoded] at hread
  cases hread

/-! ## Values -/

/-- The exponent that is read is the power of ten. -/
theorem toInt_of_power? {p : Int32} (h : d.numeral.power? = some p) : p.toInt = d.power := by
  unfold power? numeral at h
  unfold power
  cases hexponent : d.exponent with
  | none =>
    rw [hexponent] at h
    cases h
    rfl
  | some x =>
    rw [hexponent] at h
    simp only [Option.map_some] at h
    rw [exponentValue?_text] at h
    exact (Word.toInt_of_ofInt? h).1

end Decimal

/-- The number that digits write, with a point after the first. -/
def weight : List UInt8 → ℚ
  | [] => 0
  | d :: rest => d.toNat + weight rest / 10

theorem weight_append (ds es : List UInt8) :
    weight (ds ++ es) = weight ds + weight es / 10 ^ ds.length := by
  induction ds with
  | nil => simp [weight]
  | cons d ds ih =>
    rw [List.cons_append, weight, weight, ih, List.length_cons, pow_succ]
    field_simp
    ring

theorem weight_replicate_zero (k : Nat) : weight (List.replicate k 0) = 0 := by
  induction k with
  | zero => rfl
  | succ k ih => simp [List.replicate_succ, weight, ih]

namespace Numeral

/-- A text of ASCII has one byte for each character. -/
theorem bytesOf_of_ascii {cs : List Char} (h : ∀ c ∈ cs, c.toNat ≤ 127) :
    bytesOf cs = cs.map fun c => UInt8.ofNat c.toNat := by
  induction cs with
  | nil => rfl
  | cons c cs ih =>
    obtain ⟨hc, hcs⟩ := List.forall_mem_cons.1 h
    have hbytes : String.utf8EncodeChar c = [UInt8.ofNat c.toNat] := by
      rcases utf8EncodeChar_cases c with ⟨-, hbytes⟩ | ⟨hbeyond, -⟩
      · exact hbytes
      · omega
    show String.utf8EncodeChar c ++ bytesOf cs = _
    rw [hbytes, ih hcs]
    rfl

/-- The numbers of ASCII digits. -/
theorem map_bytesOf {cs : List Char} (h : ∀ c ∈ cs, c.isDigit = true) :
    (bytesOf cs).map (· - zeroByte) = cs.map fun c => UInt8.ofNat (c.toNat - 48) := by
  have hascii : ∀ c ∈ cs, c.toNat ≤ 127 := by
    intro c hc
    have hcode := isDigit_iff.1 (h c hc)
    omega
  rw [bytesOf_of_ascii hascii, List.map_map]
  refine List.map_congr_left fun c hc => ?_
  have hcode := isDigit_iff.1 (h c hc)
  have hbyte : (UInt8.ofNat c.toNat).toNat = c.toNat := by
    rw [UInt8.toNat_ofNat']
    omega
  apply UInt8.toNat_inj.1
  rw [Function.comp_apply, toNat_sub_zeroByte (by omega), hbyte, UInt8.toNat_ofNat']
  omega

theorem length_bytesOf {cs : List Char} (h : ∀ c ∈ cs, c.isDigit = true) :
    (bytesOf cs).length = cs.length := by
  have hlength := congrArg List.length (map_bytesOf h)
  simpa using hlength

theorem decimalValue_append_singleton (cs : List Char) (c : Char) :
    Address.decimalValue (cs ++ [c]) = 10 * Address.decimalValue cs + (c.toNat - 48) := by
  rw [Address.decimalValue, List.foldl_append]
  rfl

/-- The digits of a whole number, with a point after the first. -/
theorem weight_digits {cs : List Char} (h : ∀ c ∈ cs, c.isDigit = true) :
    weight ((bytesOf cs).map (· - zeroByte)) * 10 ^ cs.length =
      10 * (Address.decimalValue cs : ℚ) := by
  rw [map_bytesOf h]
  induction cs using List.reverseRecOn with
  | nil => simp [weight, Address.decimalValue]
  | append_singleton cs c ih =>
    have hcs : ∀ x ∈ cs, x.isDigit = true := fun x hx => h x (List.mem_append_left _ hx)
    have hcode := isDigit_iff.1 (h c (by simp))
    have hbyte : (UInt8.ofNat (c.toNat - 48)).toNat = c.toNat - 48 := by
      rw [UInt8.toNat_ofNat']
      omega
    rw [List.map_append, weight_append, List.length_append, decimalValue_append_singleton]
    simp only [List.map_cons, List.map_nil, List.length_map, List.length_singleton, weight, hbyte]
    push_cast
    rw [mul_add, ← ih hcs, pow_succ]
    field_simp
    ring

end Numeral

namespace Decimal

open Numeral

variable {d : Decimal}

/-- The digits of a decimal with their power of ten. -/
theorem value_eq (d : Decimal) :
    d.value = d.sign.factor * weight d.numeral.digits.value *
      10 ^ ((bytesOf d.whole).length - 1 + d.power : Int) := by
  have hwhole : ∀ c ∈ d.whole, c.isDigit = true :=
    fun c hc => d.ascii c (List.mem_append_left _ hc)
  -- all digits as one whole number, which has as many places as there are digits
  have hweight := weight_digits d.ascii
  rw [List.length_append, pow_add] at hweight
  have hdigits : d.numeral.digits.value =
      (bytesOf (d.whole ++ d.fraction.getD [])).map (· - zeroByte) := value_digits d.numeral
  -- the point moves this number back by the places behind it
  have hpower : (10 : ℚ) ^ (d.whole.length - 1 + d.power : Int) =
      10 ^ d.whole.length / 10 * 10 ^ d.power := by
    rw [zpow_add₀ (by norm_num), zpow_sub₀ (by norm_num), zpow_natCast, zpow_one]
  have hpower' : (10 : ℚ) ^ (d.power - (d.fraction.getD []).length : Int) =
      10 ^ d.power / 10 ^ (d.fraction.getD []).length := by
    rw [zpow_sub₀ (by norm_num), zpow_natCast]
  rw [value, hdigits, length_bytesOf hwhole, hpower, hpower']
  have hvalue : (Address.decimalValue (d.whole ++ d.fraction.getD []) : ℚ) =
      weight ((bytesOf (d.whole ++ d.fraction.getD [])).map (· - zeroByte)) *
        (10 ^ d.whole.length * 10 ^ (d.fraction.getD []).length) / 10 := by
    rw [hweight]
    ring
  rw [hvalue]
  field_simp

/-- The number of a decimal is its significant digits with their power of ten. -/
theorem value_of_scaled {m : Int32} {ds : List UInt8} (h : d.numeral.Scaled m ds) :
    d.value = d.sign.factor * weight ds * 10 ^ m.toInt := by
  obtain ⟨zeros, trailing, power, hpower, hdigits, hm⟩ := h.parts
  have hm : m.toInt = ((bytesOf d.whole).length - 1 + d.power : Int) - zeros := by
    rw [hm, toInt_of_power? hpower]
    show ((bytesOf d.whole).length : Int) - 1 - zeros + d.power = _
    ring
  -- zeros in front move the number by their count, and zeros behind do nothing
  rw [value_eq, hdigits, hm, zpow_sub₀ (by norm_num), zpow_natCast, List.append_assoc, weight_append,
    weight_append, weight_replicate_zero, weight_replicate_zero, List.length_replicate]
  ring

/-- A decimal without other digits than zeros writes zero. -/
theorem value_of_zero (h : ∀ x ∈ d.numeral.digits.value, x = 0) : d.value = 0 := by
  have hdigits := List.eq_replicate_iff.2 ⟨rfl, h⟩
  rw [value_eq, hdigits, weight_replicate_zero]
  ring

end Decimal

end IndexQuery
