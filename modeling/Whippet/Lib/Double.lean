import Mathlib.Data.Nat.Log
import Mathlib.Data.Int.Order.Basic
import Mathlib.Algebra.Order.BigOperators.Group.List
import Mathlib.Tactic.Ring
import Mathlib.Tactic.Positivity
import Mathlib.Tactic.NormNum

/-! Integers as IEEE doubles hold them: exact below `2 ^ 53`, rounded to the nearest even above. -/
namespace Whippet.Lib

/-- The double nearest to a natural number, ties to the even significand. -/
def roundDouble (n : ℕ) : ℕ :=
  if n < 2 ^ 53 then n
  else
    let e := n.log2 - 52
    let q := n / 2 ^ e
    let r := n % 2 ^ e
    (if 2 * r > 2 ^ e ∨ (2 * r = 2 ^ e ∧ q % 2 = 1) then q + 1 else q) * 2 ^ e

def intToDouble (n : ℤ) : ℤ := if n < 0 then -roundDouble n.natAbs else roundDouble n.natAbs

theorem roundDouble_of_lt {n : ℕ} (h : n < 2 ^ 53) : roundDouble n = n := if_pos h

theorem roundDouble_large {n : ℕ} (h : 2 ^ 53 ≤ n) : 2 ^ 53 ≤ roundDouble n := by
  have hlog : 53 ≤ n.log2 := (Nat.le_log2 (by omega)).mpr h
  have hpow : 2 ^ n.log2 ≤ n := Nat.log2_self_le (by omega)
  have hsplit : 2 ^ n.log2 = 2 ^ 52 * 2 ^ (n.log2 - 52) := by
    rw [← pow_add]
    congr 1
    omega
  have hq : 2 ^ 52 ≤ n / 2 ^ (n.log2 - 52) := by
    rw [Nat.le_div_iff_mul_le (by positivity), ← hsplit]
    exact hpow
  have he : 2 ^ 1 ≤ 2 ^ (n.log2 - 52) := Nat.pow_le_pow_right (by omega) (by omega)
  unfold roundDouble
  rw [if_neg (by omega)]
  calc
    2 ^ 53 = 2 ^ 52 * 2 ^ 1 := by norm_num
    _ ≤ _ := Nat.mul_le_mul (by split_ifs <;> omega) he

theorem intToDouble_eq {n m : ℤ} (hm : m.natAbs < 2 ^ 53) : intToDouble n = m ↔ n = m := by
  by_cases hn : n.natAbs < 2 ^ 53
  · rw [intToDouble, roundDouble_of_lt hn]
    split_ifs <;> omega
  · have hlarge := roundDouble_large (n := n.natAbs) (by omega)
    rw [intToDouble]
    split_ifs <;> omega

theorem intToDouble_of_lt {n : ℤ} (h : n.natAbs < 2 ^ 53) : intToDouble n = n := (intToDouble_eq h).mpr rfl

theorem intToDouble_le {n m : ℤ} (h0 : 0 ≤ m) (hm : m < 2 ^ 53) : intToDouble n ≤ m ↔ n ≤ m := by
  by_cases hn : n.natAbs < 2 ^ 53
  · rw [intToDouble_of_lt hn]
  · have hlarge := roundDouble_large (n := n.natAbs) (by omega)
    rw [intToDouble]
    split_ifs <;> omega

def sumDouble (values : List ℤ) : ℤ := values.foldl (fun sum value => intToDouble (sum + value)) 0

theorem foldl_intToDouble {values : List ℤ} (h0 : ∀ v ∈ values, 0 ≤ v) {s : ℤ} (hs : 0 ≤ s)
    (hlt : s + values.sum < 2 ^ 53) : values.foldl (fun sum value => intToDouble (sum + value)) s = s + values.sum := by
  induction values generalizing s with
  | nil => simp
  | cons v values ih =>
    obtain ⟨hv, hrest⟩ := List.forall_mem_cons.mp h0
    have hsum : 0 ≤ values.sum := List.sum_nonneg hrest
    rw [List.sum_cons] at hlt
    rw [List.foldl_cons, intToDouble_of_lt (by omega), ih hrest (by omega) (by omega), List.sum_cons]
    omega

theorem sumDouble_eq {values : List ℤ} (h0 : ∀ v ∈ values, 0 ≤ v) (hlt : values.sum < 2 ^ 53) :
    sumDouble values = values.sum := by
  have h := foldl_intToDouble h0 le_rfl (s := 0) (by omega)
  rwa [zero_add] at h

end Whippet.Lib
