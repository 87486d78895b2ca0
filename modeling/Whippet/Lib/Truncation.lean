import Mathlib.Order.Basic
import Mathlib.Data.Nat.Basic
import Mathlib.Algebra.Group.Nat.Defs

/-! Truncation of numbers to a mantissa in a fixed range and a power of the base. -/
namespace Whippet.Lib

variable {B m e e' x x' : ℕ}

/-- The exponent that brings the mantissa of a number between `m` and `m * B`. -/
structure Normal (B m e x : ℕ) : Prop where
  low : m * B ^ e ≤ x
  high : x < m * B ^ (e + 1)

def truncTo (B e x : ℕ) : ℕ := x / B ^ e * B ^ e

theorem truncTo_le (B e x : ℕ) : truncTo B e x ≤ x := Nat.div_mul_le_self _ _

theorem sub_truncTo_lt (hB : 0 < B) (e x : ℕ) : x - truncTo B e x < B ^ e := by
  have hlt := Nat.mod_lt x (Nat.pow_pos (n := e) hB)
  have hsum := Nat.div_add_mod' x (B ^ e)
  rw [truncTo]
  generalize x % B ^ e = r at hlt hsum
  omega

theorem Normal.le_of_le (hB : 0 < B) (h : Normal B m e x) (h' : Normal B m e' x') (hle : x ≤ x') : e ≤ e' := by
  by_contra hlt
  have hpow : m * B ^ (e' + 1) ≤ m * B ^ e := Nat.mul_le_mul_left m (Nat.pow_le_pow_right hB (by omega))
  have hlow := h.low
  have hhigh := h'.high
  omega

theorem Normal.unique (hB : 0 < B) (h : Normal B m e x) (h' : Normal B m e' x) : e = e' :=
  le_antisymm (h.le_of_le hB h' le_rfl) (h'.le_of_le hB h le_rfl)

theorem Normal.le_div (hB : 0 < B) (h : Normal B m e x) : m ≤ x / B ^ e :=
  (Nat.le_div_iff_mul_le (Nat.pow_pos hB)).mpr h.low

theorem Normal.truncTo (hB : 0 < B) (h : Normal B m e x) : Normal B m e (truncTo B e x) where
  low := Nat.mul_le_mul_right _ (h.le_div hB)
  high := (truncTo_le B e x).trans_lt h.high

theorem truncTo_div (hB : 0 < B) (e x : ℕ) : truncTo B e x / B ^ e = x / B ^ e :=
  Nat.mul_div_cancel _ (Nat.pow_pos hB)

theorem Normal.truncTo_le_truncTo (hB : 0 < B) (h : Normal B m e x) (h' : Normal B m e' x') (hle : x ≤ x') :
    Lib.truncTo B e x ≤ Lib.truncTo B e' x' := by
  rcases (h.le_of_le hB h' hle).eq_or_lt with rfl | hlt
  · exact Nat.mul_le_mul_right _ (Nat.div_le_div_right hle)
  · calc Lib.truncTo B e x ≤ x := truncTo_le B e x
      _ ≤ m * B ^ (e + 1) := h.high.le
      _ ≤ m * B ^ e' := Nat.mul_le_mul_left m (Nat.pow_le_pow_right hB hlt)
      _ ≤ Lib.truncTo B e' x' := (h'.truncTo hB).low

end Whippet.Lib
