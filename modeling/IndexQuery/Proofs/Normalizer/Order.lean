import IndexQuery.Proofs.Normalizer.Basic
import IndexQuery.Proofs.Normalizer.Decimal
import Mathlib.Tactic.Linarith

/-! # The order of numbers

    The texts that decimals are written as have the order of their numbers, byte by byte.
    The sign decides first, then the letter of the power of ten, and last the digits,
    for negative numbers as the complement.

    * `Numeral.weight_lt_of_lt`: digits have the order of the numbers that they write.
    * `Numeral.Coded.lt`: texts have the order of the numbers that they stand for.
    * `Numeral.Coded.eq`: a number has one text.
    * `Normalizer.order_of_normalize`: the same of the texts that the normalizer of
      numbers takes.
-/

namespace IndexQuery

/-- A map that keeps the order of the elements keeps that of their lists. -/
theorem List.map_lt_map_of_mem {α β : Type} [LT α] [LT β] {f : α → β} {l l' : List α}
    (hf : ∀ a ∈ l, ∀ b ∈ l', a < b → f a < f b) (h : l < l') : l.map f < l'.map f := by
  induction h with
  | nil => exact .nil
  | rel hlt => exact .rel (hf _ List.mem_cons_self _ List.mem_cons_self hlt)
  | cons _ ih =>
    refine .cons (ih fun a ha b hb => hf a ?_ b ?_)
    · exact List.mem_cons_of_mem _ ha
    · exact List.mem_cons_of_mem _ hb

namespace Numeral

/-! ## Significant digits -/

theorem weight_nonneg (ds : List UInt8) : 0 ≤ weight ds := by
  induction ds with
  | nil => exact le_refl 0
  | cons d rest ih =>
    have hd : (0 : ℚ) ≤ d.toNat := Nat.cast_nonneg _
    rw [weight]
    linarith

theorem weight_lt_ten {ds : List UInt8} (h : ∀ d ∈ ds, d.toNat ≤ 9) : weight ds < 10 := by
  induction ds with
  | nil => norm_num [weight]
  | cons d rest ih =>
    obtain ⟨hd, hrest⟩ := List.forall_mem_cons.1 h
    have hd : (d.toNat : ℚ) ≤ 9 := by exact_mod_cast hd
    have hrest := ih hrest
    rw [weight]
    linarith

theorem weight_pos {ds : List UInt8} (hne : ds ≠ []) (hlast : ds.getLast? ≠ some 0) :
    0 < weight ds := by
  induction ds with
  | nil => exact absurd rfl hne
  | cons d rest ih =>
    rw [weight]
    by_cases hrest : rest = []
    · -- the last digit is not zero
      subst hrest
      have hd : (0 : ℚ) < d.toNat := by
        exact_mod_cast toNat_pos fun hzero => hlast (by simp [hzero])
      simpa [weight] using hd
    · rw [List.getLast?_cons_of_ne_nil hrest] at hlast
      have hd : (0 : ℚ) ≤ d.toNat := Nat.cast_nonneg _
      have hpos := ih hrest hlast
      linarith

/-- Digits that begin with another than zero write no less than one. -/
theorem one_le_weight {ds : List UInt8} (h : ∃ d, ds.head? = some d ∧ d ≠ 0) : 1 ≤ weight ds := by
  obtain ⟨d, hd, hne⟩ := h
  obtain ⟨rest, rfl⟩ := List.head?_eq_some_iff.1 hd
  have hone : (1 : ℚ) ≤ d.toNat := by exact_mod_cast toNat_pos hne
  have hrest := weight_nonneg rest
  rw [weight]
  linarith

/-- Digits have the order of the numbers that they write: what follows a greater digit
    makes up for no more than one, and a longer list is greater since its last digit is
    not zero. -/
theorem weight_lt_of_lt {ds es : List UInt8} (hds : ∀ d ∈ ds, d.toNat ≤ 9)
    (hlast : es.getLast? ≠ some 0) (h : ds < es) : weight ds < weight es := by
  induction ds generalizing es with
  | nil =>
    refine weight_pos ?_ hlast
    rintro rfl
    exact List.not_lt_nil _ h
  | cons d rest ih =>
    cases es with
    | nil => exact absurd h (List.not_lt_nil _)
    | cons e rest' =>
      obtain ⟨-, hrest⟩ := List.forall_mem_cons.1 hds
      rw [weight, weight]
      rcases List.cons_lt_cons_iff.1 h with hlt | ⟨rfl, hlt⟩
      · -- what follows the smaller digit does not reach the next one
        have hstep : (d.toNat : ℚ) + 1 ≤ e.toNat := by
          exact_mod_cast UInt8.lt_iff_toNat_lt.1 hlt
        have hlow := weight_lt_ten hrest
        have hhigh := weight_nonneg rest'
        linarith
      · -- the first digits are equal, so that the others decide
        have hne : rest' ≠ [] := by
          rintro rfl
          exact List.not_lt_nil _ hlt
        rw [List.getLast?_cons_of_ne_nil hne] at hlast
        have hlt := ih hrest hlast hlt
        linarith

namespace Significant

variable {ds es : List UInt8}

theorem weight_lt_iff (hds : Significant ds) (hes : Significant es) :
    weight ds < weight es ↔ ds < es := by
  constructor
  · intro hlt
    by_contra hnot
    rcases List.le_iff_lt_or_eq.1 (List.not_lt.1 hnot) with hgt | rfl
    · exact lt_asymm hlt (weight_lt_of_lt hes.le_nine hds.last hgt)
    · exact lt_irrefl _ hlt
  · exact weight_lt_of_lt hds.le_nine hes.last

theorem eq_of_weight_eq (hds : Significant ds) (hes : Significant es)
    (h : weight ds = weight es) : ds = es := by
  have hnot : ¬ ds < es := fun hlt => ((hds.weight_lt_iff hes).2 hlt).ne h
  rcases List.le_iff_lt_or_eq.1 (List.not_lt.1 hnot) with hgt | heq
  · exact absurd h ((hes.weight_lt_iff hds).2 hgt).ne'
  · exact heq.symm

end Significant

/-! ## Complements -/

/-- The complement writes what is missing to ten. -/
theorem weight_complement {ds : List UInt8} (hne : ds ≠ []) (h : ∀ d ∈ ds, d.toNat ≤ 9) :
    weight (complement ds).value = 10 - weight ds := by
  fun_induction complement ds with
  | case1 => exact absurd rfl hne
  | case2 d =>
    have hd : d.toNat ≤ 10 := Nat.le_trans (h d List.mem_cons_self) (by decide)
    have hvalue : (Word.subByte 10 d).value.toNat = 10 - d.toNat := (Word.subByte_of_le (a := 10) hd).2
    simp only [Noted.value_bind, Noted.value_pure, weight, hvalue]
    rw [Nat.cast_sub hd]
    norm_num
  | case3 d rest hrest ih =>
    obtain ⟨hd, htail⟩ := List.forall_mem_cons.1 h
    have hvalue : (Word.subByte 9 d).value.toNat = 9 - d.toNat := (Word.subByte_of_le (a := 9) hd).2
    simp only [Noted.value_bind, Noted.value_pure, weight, hvalue, ih hrest htail]
    rw [Nat.cast_sub hd]
    push_cast
    ring

/-- Greater digits have smaller complements. -/
theorem complement_lt {ds es : List UInt8} (hds : Significant ds) (hes : Significant es)
    (h : ds < es) : (complement es).value < (complement ds).value := by
  have hweight := (hds.weight_lt_iff hes).2 h
  rw [← hes.complement.2.weight_lt_iff hds.complement.2, weight_complement hds.ne_nil hds.le_nine,
    weight_complement hes.ne_nil hes.le_nine]
  linarith

/-! ## Texts -/

theorem digitChar_lt {d e : UInt8} (hd : d.toNat ≤ 9) (he : e.toNat ≤ 9) (h : d < e) :
    (digitChar d).value < (digitChar e).value := by
  have hcode := (digitChar_spec hd).2
  have hcode' := (digitChar_spec he).2
  have hlt := UInt8.lt_iff_toNat_lt.1 h
  show (digitChar d).value.toNat < (digitChar e).value.toNat
  omega

/-- The texts of digits have their order. -/
theorem mantissa_lt {ds es : List UInt8} (hds : Significant ds) (hes : Significant es)
    (h : ds < es) : (mantissa ds).value < (mantissa es).value := by
  obtain ⟨d, rest, rfl, hvalue⟩ := value_mantissa hds
  obtain ⟨e, rest', rfl, hvalue'⟩ := value_mantissa hes
  obtain ⟨hd, hrest⟩ := List.forall_mem_cons.1 hds.le_nine
  obtain ⟨he, hrest'⟩ := List.forall_mem_cons.1 hes.le_nine
  rw [hvalue, hvalue', List.cons_lt_cons_iff]
  rcases List.cons_lt_cons_iff.1 h with hlt | ⟨rfl, hlt⟩
  · exact .inl (digitChar_lt hd he hlt)
  · refine .inr ⟨rfl, ?_⟩
    have hne : rest' ≠ [] := by
      rintro rfl
      exact List.not_lt_nil _ hlt
    rw [if_neg hne]
    split
    · -- nothing stands in front of the point
      exact List.nil_lt_cons _ _
    · refine .cons (List.map_lt_map_of_mem ?_ hlt)
      intro x hx y hy hxy
      exact digitChar_lt (hrest x hx) (hrest' y hy) hxy

theorem toNat_le_of_mem_mantissa {ds : List UInt8} (h : Significant ds) :
    ∀ c ∈ (mantissa ds).value, c.toNat ≤ 127 := by
  obtain ⟨d, rest, rfl, hvalue⟩ := value_mantissa h
  have hchar : ∀ x ∈ d :: rest, (digitChar x).value.toNat ≤ 127 := by
    intro x hx
    have hle := h.le_nine x hx
    rw [(digitChar_spec hle).2]
    omega
  obtain ⟨hd, hrest⟩ := List.forall_mem_cons.1 hchar
  rw [hvalue]
  refine List.forall_mem_cons.2 ⟨hd, ?_⟩
  split
  · simp
  · simpa using hrest

/-- Greater powers of ten have greater letters, and smaller ones in negative numbers. -/
theorem magnitudeLetter_lt {m m' : Int32} (hm : m.toInt.natAbs ≤ maxMagnitude)
    (hm' : m'.toInt.natAbs ≤ maxMagnitude) (h : m.toInt < m'.toInt) :
    (magnitudeLetter false m).value < (magnitudeLetter false m').value ∧
      (magnitudeLetter true m').value < (magnitudeLetter true m).value := by
  have hcode := fun negative => (magnitudeLetter_spec negative hm).2.2
  have hcode' := fun negative => (magnitudeLetter_spec negative hm').2.2
  unfold maxMagnitude at hm hm'
  constructor
  · have hcode := hcode false
    have hcode' := hcode' false
    simp only [Bool.false_eq_true, if_false] at hcode hcode'
    -- powers below one have capital letters, which stand in front of the small ones
    show (magnitudeLetter false m).value.toNat < (magnitudeLetter false m').value.toNat
    split at hcode <;> split at hcode' <;> omega
  · have hcode := hcode true
    have hcode' := hcode' true
    simp only [if_true] at hcode hcode'
    -- here they have the small ones
    show (magnitudeLetter true m').value.toNat < (magnitudeLetter true m).value.toNat
    split at hcode <;> split at hcode' <;> omega

/-! ## Numbers with a power of ten -/

variable {m m' : Int32} {ds es : List UInt8}

/-- Digits that write no less than one, with a power of ten that has a letter. -/
structure Standard (m : Int32) (ds : List UInt8) : Prop where
  bound : m.toInt.natAbs ≤ maxMagnitude
  significant : Significant ds
  one_le : 1 ≤ weight ds

theorem Scaled.standard {n : Numeral} (h : n.Scaled m ds) (hascii : n.Ascii) : Standard m ds where
  bound := h.bound
  significant := h.significant hascii
  one_le := one_le_weight h.head

/-- The number that digits write with a power of ten. -/
def amount (m : Int32) (ds : List UInt8) : ℚ := weight ds * 10 ^ m.toInt

namespace Standard

theorem amount_pos (h : Standard m ds) : 0 < amount m ds :=
  mul_pos (lt_of_lt_of_le one_pos h.one_le) (zpow_pos (by norm_num) _)

/-- A greater power of ten outweighs all digits. -/
theorem amount_lt_of_lt (h : Standard m ds) (h' : Standard m' es) (hlt : m.toInt < m'.toInt) :
    amount m ds < amount m' es := by
  have hpos : (0 : ℚ) < 10 ^ m.toInt := zpow_pos (by norm_num) _
  have hpos' : (0 : ℚ) < 10 ^ m'.toInt := zpow_pos (by norm_num) _
  calc weight ds * 10 ^ m.toInt
      < 10 * 10 ^ m.toInt := mul_lt_mul_of_pos_right (weight_lt_ten h.significant.le_nine) hpos
    _ = 10 ^ (m.toInt + 1) := by rw [zpow_add_one₀ (by norm_num), mul_comm]
    _ ≤ 10 ^ m'.toInt := zpow_le_zpow_right₀ (by norm_num) hlt
    _ ≤ weight es * 10 ^ m'.toInt := le_mul_of_one_le_left hpos'.le h'.one_le

/-- The power of ten decides, and then the digits. -/
theorem lt_of_amount_lt (h : Standard m ds) (h' : Standard m' es)
    (hlt : amount m ds < amount m' es) :
    m.toInt < m'.toInt ∨ m = m' ∧ ds < es := by
  rcases lt_trichotomy m.toInt m'.toInt with hm | hm | hm
  · exact .inl hm
  · have hm := Int32.toInt_inj.1 hm
    subst hm
    have hpos : (0 : ℚ) < 10 ^ m.toInt := zpow_pos (by norm_num) _
    have hweight : weight ds < weight es := lt_of_mul_lt_mul_right hlt hpos.le
    exact .inr ⟨rfl, (h.significant.weight_lt_iff h'.significant).1 hweight⟩
  · exact absurd hlt (lt_asymm (h'.amount_lt_of_lt h hm))

theorem eq_of_amount_eq (h : Standard m ds) (h' : Standard m' es)
    (heq : amount m ds = amount m' es) : m = m' ∧ ds = es := by
  rcases lt_trichotomy m.toInt m'.toInt with hm | hm | hm
  · exact absurd heq (h.amount_lt_of_lt h' hm).ne
  · have hm := Int32.toInt_inj.1 hm
    subst hm
    have hpos : (0 : ℚ) < 10 ^ m.toInt := zpow_pos (by norm_num) _
    exact ⟨rfl, h.significant.eq_of_weight_eq h'.significant (mul_right_cancel₀ hpos.ne' heq)⟩
  · exact absurd heq (h'.amount_lt_of_lt h hm).ne'

/-- The texts of positive numbers have their order. -/
theorem write_lt (h : Standard m ds) (h' : Standard m' es) (hlt : amount m ds < amount m' es) :
    (write false m ds).value < (write false m' es).value := by
  rw [value_write, value_write]
  rcases h.lt_of_amount_lt h' hlt with hm | ⟨rfl, hdigits⟩
  · -- the letters differ behind the common sign
    exact .cons (.rel (magnitudeLetter_lt h.bound h'.bound hm).1)
  · exact .cons (.cons (.cons (mantissa_lt h.significant h'.significant hdigits)))

/-- The texts of negative numbers have the opposite order of their amounts. -/
theorem write_lt_of_negative (h : Standard m ds) (h' : Standard m' es)
    (hlt : amount m ds < amount m' es) :
    (write true m' es).value < (write true m ds).value := by
  rw [value_write, value_write]
  rcases h.lt_of_amount_lt h' hlt with hm | ⟨rfl, hdigits⟩
  · exact .cons (.rel (magnitudeLetter_lt h.bound h'.bound hm).2)
  · -- greater digits have smaller complements, and those are written
    have hcomplement := complement_lt h.significant h'.significant hdigits
    exact .cons (.cons (.cons
      (mantissa_lt h'.significant.complement.2 h.significant.complement.2 hcomplement)))

end Standard

/-- The text of zero stands in front of those of the positive numbers. -/
theorem zero_lt_write (h : Standard m ds) :
    ['+', 'A', 'E', '0'] < (write false m ds).value := by
  rw [value_write]
  -- the least letter of a positive number is `B`
  refine .cons (.rel ?_)
  have hbound := h.bound
  have hcode := (magnitudeLetter_spec false hbound).2.2
  unfold maxMagnitude at hbound
  simp only [Bool.false_eq_true, if_false] at hcode
  show 'A'.toNat < (magnitudeLetter false m).value.toNat
  have hA : 'A'.toNat = 65 := rfl
  split at hcode <;> omega

/-! ## Numbers and their texts -/

/-- The numbers that have a text, with this text. -/
inductive Coded : ℚ → List Char → Prop
  | zero : Coded 0 ['+', 'A', 'E', '0']
  | positive {m : Int32} {ds : List UInt8} (h : Standard m ds) :
      Coded (amount m ds) (write false m ds).value
  | negative {m : Int32} {ds : List UInt8} (h : Standard m ds) :
      Coded (-amount m ds) (write true m ds).value

namespace Coded

variable {a b : ℚ} {v w : List Char}

/-- Texts have the order of the numbers that they stand for. -/
theorem lt (hv : Coded a v) (hw : Coded b w) (hlt : a < b) : v < w := by
  -- the sign decides between the signs, in the other cases the numbers contradict the order
  have hsign : '!' < '+' := by decide
  cases hv with
  | zero =>
    cases hw with
    | zero => exact absurd hlt (lt_irrefl 0)
    | positive h => exact zero_lt_write h
    | negative h =>
      have hpos := h.amount_pos
      linarith
  | positive h =>
    have hpos := h.amount_pos
    cases hw with
    | zero => linarith
    | positive h' => exact h.write_lt h' hlt
    | negative h' =>
      have hpos' := h'.amount_pos
      linarith
  | negative h =>
    cases hw with
    | zero =>
      rw [value_write]
      exact .rel hsign
    | positive h' =>
      rw [value_write, value_write]
      exact .rel hsign
    | negative h' => exact h'.write_lt_of_negative h (neg_lt_neg_iff.1 hlt)

/-- A number has one text. -/
theorem eq (hv : Coded a v) (hw : Coded b w) (heq : a = b) : v = w := by
  cases hv with
  | zero =>
    cases hw with
    | zero => rfl
    | positive h => exact absurd heq h.amount_pos.ne
    | negative h =>
      have hpos := h.amount_pos
      linarith
  | positive h =>
    have hpos := h.amount_pos
    cases hw with
    | zero => exact absurd heq hpos.ne'
    | positive h' =>
      obtain ⟨rfl, rfl⟩ := h.eq_of_amount_eq h' heq
      rfl
    | negative h' =>
      have hpos' := h'.amount_pos
      linarith
  | negative h =>
    have hpos := h.amount_pos
    cases hw with
    | zero => linarith
    | positive h' =>
      have hpos' := h'.amount_pos
      linarith
    | negative h' =>
      obtain ⟨rfl, rfl⟩ := h.eq_of_amount_eq h' (neg_injective heq)
      rfl

/-- The texts are ASCII. -/
theorem toNat_le (h : Coded a v) : ∀ c ∈ v, c.toNat ≤ 127 := by
  have hwrite : ∀ {negative : Bool} {m : Int32} {ds : List UInt8}, Standard m ds →
      ∀ c ∈ (write negative m ds).value, c.toNat ≤ 127 := by
    intro negative m ds h c hc
    have hdigits := h.significant.written negative
    have hletter := toNat_of_isAlpha (magnitudeLetter_spec negative h.bound).2.1
    rw [value_write] at hc
    simp only [List.mem_cons] at hc
    rcases hc with rfl | rfl | rfl | hc
    · cases negative <;> decide
    · omega
    · decide
    · exact toNat_le_of_mem_mantissa hdigits c hc
  cases h with
  | zero =>
    intro c hc
    simp only [List.mem_cons, List.not_mem_nil, or_false] at hc
    rcases hc with rfl | rfl | rfl | rfl <;> decide
  | positive h => exact hwrite h
  | negative h => exact hwrite h

/-- So their bytes have the same order. -/
theorem bytesOf_lt (hv : Coded a v) (hw : Coded b w) (hlt : a < b) : bytesOf v < bytesOf w := by
  rw [bytesOf_of_ascii hv.toNat_le, bytesOf_of_ascii hw.toNat_le]
  refine List.map_lt_map_of_mem ?_ (hv.lt hw hlt)
  intro c hc d hd hcd
  have hcd : c.toNat < d.toNat := hcd
  have hd := hw.toNat_le d hd
  apply UInt8.lt_iff_toNat_lt.2
  rw [UInt8.toNat_ofNat', UInt8.toNat_ofNat']
  omega

theorem bytesOf_lt_iff (hv : Coded a v) (hw : Coded b w) : a < b ↔ bytesOf v < bytesOf w := by
  constructor
  · exact hv.bytesOf_lt hw
  · intro hbytes
    rcases lt_trichotomy a b with hlt | heq | hgt
    · exact hlt
    · rw [hv.eq hw heq] at hbytes
      exact absurd hbytes (List.lt_irrefl _)
    · exact absurd hbytes (List.lt_asymm (hw.bytesOf_lt hv hgt))

theorem eq_iff (hv : Coded a v) (hw : Coded b w) : a = b ↔ v = w := by
  constructor
  · exact hv.eq hw
  · intro heq
    rcases lt_trichotomy a b with hlt | hab | hgt
    · exact absurd (hv.lt hw hlt) (by rw [heq]; exact List.lt_irrefl _)
    · exact hab
    · exact absurd (hw.lt hv hgt) (by rw [heq]; exact List.lt_irrefl _)

end Coded

/-- The text that is written of a decimal stands for its number. -/
theorem coded_of_encode {d : Decimal} {w : List Char} (h : d.numeral.encode.value = some w) :
    Coded d.value w := by
  have hascii := d.ascii_numeral
  rcases value_encode hascii.digital h with ⟨hzero, rfl⟩ | ⟨m, ds, hscaled, rfl⟩
  · rw [Decimal.value_of_zero ((scale_spec hascii.digital).2.1 hzero).2]
    exact .zero
  · have hvalue : d.value = d.sign.factor * amount m ds := by
      rw [Decimal.value_of_scaled hscaled, amount, mul_assoc]
    have hstandard := hscaled.standard hascii
    rw [hvalue]
    unfold Decimal.numeral
    cases d.sign with
    | none | plus => simpa [Sign.factor] using Coded.positive hstandard
    | minus => simpa [Sign.factor] using Coded.negative hstandard

end Numeral

namespace Normalizer

/-- What the normalizer of numbers writes of a decimal stands for its number. -/
theorem coded_of_normalize {d : Decimal} {text value : String}
    (htext : Unicode.trim text.toList = d.text) (h : normalize .number text = .ok value) :
    Numeral.Coded d.value value.toList := by
  rw [normalize_number, Numeral.normalize?_eq, htext, d.isEncoded_text, d.read?_text] at h
  exact Numeral.coded_of_encode h

/-- Of two decimals that the normalizer of numbers takes, the smaller number has the
    smaller bytes, and equal numbers have equal texts. -/
theorem order_of_normalize {d e : Decimal} {x y v w : String}
    (hx : Unicode.trim x.toList = d.text) (hy : Unicode.trim y.toList = e.text)
    (hv : normalize .number x = .ok v) (hw : normalize .number y = .ok w) :
    (d.value < e.value ↔ Numeral.bytesOf v.toList < Numeral.bytesOf w.toList) ∧
      (d.value = e.value ↔ v = w) := by
  have hcoded := coded_of_normalize hx hv
  have hcoded' := coded_of_normalize hy hw
  exact ⟨hcoded.bytesOf_lt_iff hcoded', (hcoded.eq_iff hcoded').trans String.toList_inj⟩

/-- Of two negative numbers the one with more digits is smaller: its complement is. -/
theorem order_of_negativeNumbers :
    ∃ d e : Decimal, Unicode.trim "-1.50".toList = d.text ∧
      Unicode.trim " -10e-1".toList = e.text ∧
      normalize .number "-1.50" = .ok "!ZE8.5" ∧ normalize .number " -10e-1" = .ok "!ZE9" ∧
      d.value < e.value := by
  let d : Decimal := ⟨.minus, ['1'], some ['5', '0'], none, List.all_eq_true.1 rfl, by simp⟩
  let x : Exponent := ⟨'e', .minus, ['1'], .inl rfl, List.all_eq_true.1 rfl, by simp⟩
  let e : Decimal := ⟨.minus, ['1', '0'], none, some x, List.all_eq_true.1 rfl, by simp⟩
  have hx : Unicode.trim "-1.50".toList = d.text := by decide +kernel
  have hy : Unicode.trim " -10e-1".toList = e.text := by decide +kernel
  have hv : normalize .number "-1.50" = .ok "!ZE8.5" := normalize_number.2 (by decide +kernel)
  have hw : normalize .number " -10e-1" = .ok "!ZE9" := normalize_number.2 (by decide +kernel)
  exact ⟨d, e, hx, hy, hv, hw, (order_of_normalize hx hy hv hw).1.2 (by decide +kernel)⟩

end Normalizer

end IndexQuery
