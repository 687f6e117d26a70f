import Mathlib.Algebra.Ring.Nat

/-! # Decimal digits

    * `ofDigitChars_lt`: digits write a number below the power of ten with as many zeros.
    * `eq_nil_of_toDigits`: a number is written without zeros in front.
-/

namespace IndexQuery.Text

theorem ofDigitChars_lt {digits : List Char} (h : ∀ c ∈ digits, c.isDigit = true) :
    Nat.ofDigitChars 10 digits 0 < 10 ^ digits.length := by
  have hbound : ∀ first, Nat.ofDigitChars 10 digits first < 10 ^ digits.length * (first + 1) := by
    intro first
    induction digits generalizing first with
    | nil => simp
    | cons c digits ih =>
      obtain ⟨hc, hdigits⟩ := List.forall_mem_cons.1 h
      have hcode : 48 ≤ c.toNat ∧ c.toNat ≤ 57 := by
        simpa [Char.isDigit, UInt32.le_iff_toNat_le] using hc
      have hzero : '0'.toNat = 48 := rfl
      rw [Nat.ofDigitChars_cons, List.length_cons, Nat.pow_succ, Nat.mul_assoc]
      refine Nat.lt_of_lt_of_le (ih hdigits _) (Nat.mul_le_mul_left _ ?_)
      omega
  simpa using hbound 0

/-- The digits of a number start with a zero only if there is just this one. -/
theorem eq_nil_of_toDigits {n : Nat} {rest : List Char} (h : Nat.toDigits 10 n = '0' :: rest) :
    rest = [] := by
  by_cases hrest : rest = []
  · exact hrest
  · -- without the zero the number would have one digit less
    exfalso
    have hdigits : ∀ c ∈ rest, c.isDigit = true := fun c hc =>
      Nat.isDigit_of_mem_toDigits (by decide) (by decide) (h ▸ List.mem_cons_of_mem _ hc)
    have hvalue : Nat.ofDigitChars 10 rest 0 = n := by
      rw [← Nat.ofDigitChars_ten_toDigits (n := n), h, Nat.ofDigitChars_cons]
      rfl
    have hlength := (Nat.length_toDigits_le_iff (b := 10) (by decide)
      (List.length_pos_iff.2 hrest)).2 (hvalue ▸ ofDigitChars_lt hdigits)
    rw [h, List.length_cons] at hlength
    omega

end IndexQuery.Text
