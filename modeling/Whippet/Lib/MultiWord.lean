import Mathlib.Data.Nat.Digits.Defs
import Mathlib.Data.Nat.Size
import Mathlib.Tactic.Ring

/-! Arithmetic of numbers that fill several machine words: the product with one word, carried from word to word, and
division bit by bit. -/
namespace Whippet.Lib

/-- The product of a number with the word `b`, words in base `β` and least significant first. -/
def mulWords (β b : ℕ) : ℕ → List ℕ → List ℕ
  | _, [] => []
  | carry, w :: ws => (carry + b * w) % β :: mulWords β b ((carry + b * w) / β) ws

theorem ofDigits_mulWords (β b carry : ℕ) (ws : List ℕ) :
    Nat.ofDigits β (mulWords β b carry ws) = (Nat.ofDigits β ws * b + carry) % β ^ ws.length := by
  induction ws generalizing carry with
  | nil => simp [mulWords, Nat.mod_one]
  | cons w ws ih =>
    have hsplit : Nat.ofDigits β (w :: ws) * b + carry =
        (carry + b * w) + β * (Nat.ofDigits β ws * b) := by
      rw [Nat.ofDigits_cons]
      ring
    rw [mulWords, Nat.ofDigits_cons, ih, hsplit, List.length_cons, Nat.pow_succ', Nat.mod_mul]
    rcases Nat.eq_zero_or_pos β with rfl | hβ
    · simp
    · rw [Nat.add_mul_mod_self_left, Nat.add_mul_div_left _ _ hβ, Nat.add_comm (Nat.ofDigits β ws * b)]

/-- Division that shifts and subtracts, with `shift` bits of the quotient left to find. -/
def longDiv {w : ℕ} : ℕ → BitVec w → BitVec w → BitVec w → BitVec w
  | 0, _, _, quotient => quotient
  | shift + 1, num, div, quotient =>
    if div ≤ num then longDiv shift (num - div) (div >>> 1) (quotient ||| 1#w <<< shift)
    else longDiv shift num (div >>> 1) quotient

/-- The bits found so far and those still to come make up the quotient. The invariant: `div` is the divisor moved up to
the bit that is looked at, what is left of the number is below twice that, and no bit further down is set. -/
theorem toNat_longDiv {w shift : ℕ} {num div quotient : BitVec w} {d q : ℕ} (hd : 0 < d) (hshift : shift ≤ w)
    (hdiv : ∀ s, shift = s + 1 → div.toNat = d * 2 ^ s) (hnum : num.toNat < d * 2 ^ shift)
    (hq : quotient.toNat = 2 ^ shift * q) :
    (longDiv shift num div quotient).toNat = quotient.toNat + num.toNat / d := by
  induction shift generalizing num div quotient q with
  | zero => simp [longDiv, Nat.div_eq_of_lt (by simpa using hnum)]
  | succ shift ih =>
    have hdiv' : div.toNat = d * 2 ^ shift := hdiv shift rfl
    have hhalf : ∀ s, shift = s + 1 → (div >>> 1).toNat = d * 2 ^ s := by
      rintro s rfl
      rw [BitVec.toNat_ushiftRight, hdiv', Nat.shiftRight_eq_div_pow, pow_succ, pow_one, ← Nat.mul_assoc,
        Nat.mul_div_cancel _ two_pos]
    rw [pow_succ, ← Nat.mul_assoc] at hnum
    rw [longDiv]
    split_ifs with hle
    · have hle' : d * 2 ^ shift ≤ num.toNat := hdiv' ▸ BitVec.le_def.mp hle
      have hrest : (num - div).toNat = num.toNat - d * 2 ^ shift := by
        rw [BitVec.toNat_sub_of_le hle, hdiv']
      have hbit : (quotient ||| 1#w <<< shift).toNat = quotient.toNat + 2 ^ shift := by
        have hone : (1#w <<< shift).toNat = 2 ^ shift := by
          rw [← BitVec.twoPow_eq, BitVec.toNat_twoPow_of_lt (Nat.lt_of_succ_le hshift)]
        have hlow : 2 ^ shift < 2 ^ (shift + 1) := Nat.pow_lt_pow_succ one_lt_two
        rw [BitVec.toNat_or, hone, hq, Nat.two_pow_add_eq_or_of_lt hlow]
      have hquot : (quotient ||| 1#w <<< shift).toNat = 2 ^ shift * (2 * q + 1) := by
        rw [hbit, hq, pow_succ]
        ring
      rw [ih (Nat.le_of_succ_le hshift) hhalf (by rw [hrest]; omega) hquot, hbit, hrest, Nat.sub_mul_div]
      have hbits : 2 ^ shift ≤ num.toNat / d := (Nat.le_div_iff_mul_le hd).mpr (by rwa [Nat.mul_comm])
      omega
    · have hlt : num.toNat < d * 2 ^ shift := hdiv' ▸ Nat.lt_of_not_le (fun h => hle (BitVec.le_def.mpr h))
      exact ih (q := 2 * q) (Nat.le_of_succ_le hshift) hhalf hlt (by rw [hq, pow_succ]; ring)

end Whippet.Lib
