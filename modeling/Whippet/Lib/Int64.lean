import Mathlib.Data.Int.Order.Basic
import Mathlib.Algebra.Group.Nat.Defs
import Mathlib.Algebra.Group.Int.Defs

/-! Sums, differences, products and quotients of 64-bit integers that stay in range. -/
namespace Whippet.Lib

theorem bmod_int64 {n : ℤ} (h0 : -2 ^ 63 ≤ n) (h1 : n < 2 ^ 63) : n.bmod (2 ^ 64) = n :=
  Int.bmod_eq_of_le (by omega) (by omega)

section
variable {a b : Int64} {x y : ℤ} (ha : a.toInt = x) (hb : b.toInt = y)
include ha hb

theorem toInt_add_eq (h0 : -2 ^ 63 ≤ x + y) (h1 : x + y < 2 ^ 63) : (a + b).toInt = x + y := by
  rw [Int64.toInt_add, ha, hb, bmod_int64 h0 h1]

theorem toInt_sub_eq (h0 : -2 ^ 63 ≤ x - y) (h1 : x - y < 2 ^ 63) : (a - b).toInt = x - y := by
  rw [Int64.toInt_sub, ha, hb, bmod_int64 h0 h1]

theorem toInt_mul_eq (h0 : -2 ^ 63 ≤ x * y) (h1 : x * y < 2 ^ 63) : (a * b).toInt = x * y := by
  rw [Int64.toInt_mul, ha, hb, bmod_int64 h0 h1]

theorem toInt_div_eq (h0 : 0 ≤ x) (h1 : 0 < y) : (a / b).toInt = x / y := by
  have hlt := a.toInt_lt
  have hle : x / y ≤ x := Int.ediv_le_self _ h0
  have hnonneg : 0 ≤ x / y := Int.ediv_nonneg h0 (Int.le_of_lt h1)
  rw [Int64.toInt_div, ha, hb, Int.tdiv_eq_ediv_of_nonneg h0, bmod_int64 (by omega) (by omega)]

theorem int64_lt_iff : a < b ↔ x < y := by rw [Int64.lt_iff_toInt_lt, ha, hb]

theorem int64_le_iff : a ≤ b ↔ x ≤ y := by rw [Int64.le_iff_toInt_le, ha, hb]

end

end Whippet.Lib
