import Mathlib.Data.List.Induction
import Mathlib.Tactic.IntervalCases
import Mathlib.Tactic.Ring

/-! Decimal digits: how large a text of digits is, and digits padded to a width. -/
namespace Whippet.Lib

theorem ofDigitChars_lt {digits : List Char} (h : digits.all Char.isDigit) :
    Nat.ofDigitChars 10 digits 0 < 10 ^ digits.length := by
  induction digits using List.reverseRecOn with
  | nil => simp
  | append_singleton digits c ih =>
    simp only [List.all_append, List.all_cons, List.all_nil, Bool.and_true, Bool.and_eq_true] at h
    have hc : c.toNat - '0'.toNat ≤ 9 := by
      have hdigit := h.2
      simp only [Char.isDigit, Bool.and_eq_true, decide_eq_true_eq] at hdigit
      have hle : c.toNat ≤ 57 := hdigit.2
      have hzero : '0'.toNat = 48 := rfl
      omega
    have := ih h.1
    rw [Nat.ofDigitChars_append, Nat.ofDigitChars_cons, Nat.ofDigitChars_nil, List.length_append, List.length_singleton,
      pow_succ]
    omega

theorem toDigits_head {n : ℕ} (h : (Nat.toDigits 10 n).head? = some '0') : n = 0 := by
  induction n using Nat.strongRecOn with
  | ind n ih =>
    by_cases hlt : n < 10
    · rw [Nat.toDigits_of_lt_base hlt] at h
      interval_cases n <;> simp_all [Nat.digitChar]
    · have hhead : (Nat.toDigits 10 (n / 10)).head? = some '0' := by
        rw [Nat.toDigits_of_base_le (by decide) (by omega)] at h
        obtain ⟨c, cs, hcs⟩ := List.exists_cons_of_ne_nil (Nat.toDigits_ne_nil (n := n / 10) (b := 10))
        rw [hcs] at h ⊢
        exact h
      have := ih (n / 10) (by omega) hhead
      omega

/-- The digits of a number, with zeros in front up to the width: `%0*d`. -/
def padDigits (width n : ℕ) : List Char :=
  List.replicate (width - (Nat.toDigits 10 n).length) '0' ++ Nat.toDigits 10 n

theorem padDigits_all (width n : ℕ) : (padDigits width n).all Char.isDigit := by
  have hdigits : ∀ c ∈ Nat.toDigits 10 n, c.isDigit := fun c hc => Nat.isDigit_of_mem_toDigits (by decide) (by decide) hc
  simpa [padDigits] using hdigits

theorem length_padDigits {width n : ℕ} (hwidth : 0 < width) (h : n < 10 ^ width) : (padDigits width n).length = width := by
  have := (Nat.length_toDigits_le_iff (by decide) hwidth).mpr h
  simp only [padDigits, List.length_append, List.length_replicate]
  omega

theorem ofDigitChars_padDigits (width n : ℕ) : Nat.ofDigitChars 10 (padDigits width n) 0 = n := by
  rw [padDigits, Nat.ofDigitChars_append, Nat.ofDigitChars_replicate_zero, mul_zero, Nat.ofDigitChars_ten_toDigits]

end Whippet.Lib
