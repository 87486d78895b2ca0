import Mathlib.Data.Nat.Bitwise
import Mathlib.Data.Nat.Digits.Lemmas
import Mathlib.Data.Nat.Size

/-! Numbers that fill several 32-bit words, the least significant word first. -/
namespace Whippet.Lib

def limbsValue (pn : List UInt32) : ℕ := Nat.ofDigits (2 ^ 32) (pn.map UInt32.toNat)

section
variable {pn : List UInt32} {w : UInt32} {i j n : ℕ}

@[simp] theorem limbsValue_nil : limbsValue [] = 0 := rfl

theorem limbsValue_cons (w : UInt32) (pn : List UInt32) : limbsValue (w :: pn) = w.toNat + 2 ^ 32 * limbsValue pn := by
  rw [limbsValue, List.map_cons, Nat.ofDigits_cons, limbsValue]

theorem limbsValue_concat (pn : List UInt32) (w : UInt32) :
    limbsValue (pn ++ [w]) = limbsValue pn + 2 ^ (32 * pn.length) * w.toNat := by
  rw [limbsValue, List.map_append, Nat.ofDigits_append, List.length_map, ← Nat.pow_mul, limbsValue]
  simp

theorem limbsValue_lt (pn : List UInt32) : limbsValue pn < 2 ^ (32 * pn.length) := by
  induction pn with
  | nil => simp
  | cons w pn ih =>
    have hw := w.toNat_lt
    rw [limbsValue_cons, List.length_cons, Nat.mul_add, Nat.mul_one, Nat.pow_add, Nat.mul_comm (2 ^ (32 * pn.length))]
    omega

theorem limbsValue_replicate_zero (n : ℕ) : limbsValue (List.replicate n 0) = 0 := by
  induction n with
  | zero => rfl
  | succ n ih => rw [List.replicate_succ, limbsValue_cons, ih]; rfl

theorem testBit_limbsValue (pn : List UInt32) (i : ℕ) :
    (limbsValue pn).testBit i = (pn.getD (i / 32) 0).toNat.testBit (i % 32) := by
  induction pn generalizing i with
  | nil => simp
  | cons w pn ih =>
    rw [limbsValue_cons, Nat.add_comm, Nat.testBit_two_pow_mul_add _ w.toNat_lt]
    split_ifs with hi
    · rw [Nat.div_eq_of_lt hi, Nat.mod_eq_of_lt hi, List.getD_cons_zero]
    · have hdiv : i / 32 = (i - 32) / 32 + 1 := by omega
      have hmod : (i - 32) % 32 = i % 32 := by omega
      rw [ih, hdiv, List.getD_cons_succ, hmod]

theorem testBit_limbsValue_modify (hj : j < pn.length) (w : UInt32) (i : ℕ) :
    (limbsValue (pn.modify j (· ||| w))).testBit i =
      ((limbsValue pn).testBit i || (decide (i / 32 = j) && w.toNat.testBit (i % 32))) := by
  rw [testBit_limbsValue, testBit_limbsValue, List.getD_eq_getElem?_getD, List.getD_eq_getElem?_getD,
    List.getElem?_modify]
  by_cases heq : i / 32 = j
  · subst heq
    simp [List.getElem?_eq_getElem hj]
  · simp [heq, Ne.symm heq]

theorem size_add_two_pow_mul {m v w : ℕ} (hv : v < 2 ^ m) (hw : 0 < w) : (v + 2 ^ m * w).size = m + w.size := by
  have hpos : 0 < w.size := Nat.size_pos.mpr hw
  refine le_antisymm (Nat.size_le.mpr ?_) ?_
  · calc v + 2 ^ m * w < 2 ^ m * (w + 1) := by rw [Nat.mul_succ]; omega
      _ ≤ 2 ^ m * 2 ^ w.size := Nat.mul_le_mul_left _ (Nat.lt_size_self w)
      _ = 2 ^ (m + w.size) := (Nat.pow_add 2 m _).symm
  · have htop : 2 ^ (w.size - 1) ≤ w := Nat.lt_size.mp (by omega)
    have hle : 2 ^ (m + (w.size - 1)) ≤ v + 2 ^ m * w := by
      rw [Nat.pow_add]
      exact (Nat.mul_le_mul_left _ htop).trans (Nat.le_add_left _ _)
    have hlt := Nat.lt_size.mpr hle
    omega

/-! A sum or product of words in 64 bits is split into the word that stays and the carry. -/

theorem toNat_lowWord (n : UInt64) : (n &&& 0xffffffff).toUInt32.toNat = n.toNat % 2 ^ 32 := by
  have hmask : UInt64.toNat 0xffffffff = 2 ^ 32 - 1 := rfl
  rw [UInt64.toNat_toUInt32, UInt64.toNat_and, hmask, Nat.and_two_pow_sub_one_eq_mod, Nat.mod_mod]

theorem toNat_carry (n : UInt64) : (n >>> 32).toNat = n.toNat / 2 ^ 32 := by
  rw [UInt64.toNat_shiftRight, Nat.shiftRight_eq_div_pow]
  rfl

end

end Whippet.Lib
