import Whippet.Lib.Truncation
import Whippet.Pow.ArithUint256

/-! The compact form of a target rounds it down. -/
namespace Whippet.Pow
open Lib

namespace ArithUint256
variable {a : ArithUint256}

/-- Counted in units that are three bytes below its last, a target is truncated to the exponent that leaves 16 to 23 bits
of it. -/
theorem getCompact_normal (ha : 0 < a.toNat) :
    ∃ nSize, Normal 256 (2 ^ 15) nSize (a.toNat * 256 ^ 3) ∧
      (getCompact a false).toNat = a.toNat * 256 ^ 3 / 256 ^ nSize + 2 ^ 24 * nSize ∧
      (setCompact (getCompact a false)).value.toNat * 256 ^ 3 = truncTo 256 nSize (a.toNat * 256 ^ 3) := by
  obtain ⟨nSize, nWord, hcompact, hge, hlt, hsize, hlast, hword⟩ := getCompact_parts ha
  obtain ⟨-, -, hvalue⟩ := setCompact_of_parts hlt hcompact hsize hlast
  have hquot : a.toNat * 256 ^ 3 / 256 ^ nSize = nWord ∧
      compactValue (getCompact a false) * 256 ^ 3 = nWord * 256 ^ nSize := by
    rw [hvalue]
    split_ifs at hword ⊢ with h3
    · have hpow : 256 ^ 3 = 256 ^ (3 - nSize) * 256 ^ nSize := by rw [← Nat.pow_add, Nat.sub_add_cancel h3]
      have hunit : a.toNat * 256 ^ 3 = nWord * 256 ^ nSize := by rw [hword, hpow, Nat.mul_assoc]
      rw [hunit, Nat.mul_div_cancel _ (by positivity), hword, Nat.mul_div_cancel _ (by positivity), hpow, Nat.mul_assoc]
      exact ⟨rfl, rfl⟩
    · have hpow : 256 ^ nSize = 256 ^ (nSize - 3) * 256 ^ 3 := by
        rw [← Nat.pow_add, Nat.sub_add_cancel (not_le.mp h3).le]
      rw [hpow, Nat.mul_div_mul_right _ _ (by positivity), hword, Nat.mul_assoc]
      exact ⟨rfl, rfl⟩
  have hdecode : compactValue (getCompact a false) * 256 ^ 3 = truncTo 256 nSize (a.toNat * 256 ^ 3) := by
    rw [truncTo, hquot.1, hquot.2]
  have hle : compactValue (getCompact a false) ≤ a.toNat :=
    Nat.le_of_mul_le_mul_right (hdecode.trans_le (truncTo_le _ _ _)) (by positivity)
  refine ⟨nSize, ⟨?_, ?_⟩, ?_, ?_⟩
  · rw [← Nat.le_div_iff_mul_le (by positivity), hquot.1]
    exact hge
  · have hhigh : a.toNat * 256 ^ 3 / 256 ^ nSize < 2 ^ 23 := hquot.1.trans_lt hlt
    rw [Nat.div_lt_iff_lt_mul (by positivity)] at hhigh
    rw [Nat.pow_succ]
    omega
  · rw [hquot.1, hcompact]
  · rw [toNat_setCompact, Nat.mod_eq_of_lt (hle.trans_lt a.isLt), hdecode]

theorem sub_setCompact_lt (ha : 0 < a.toNat) :
    a.toNat - (setCompact (getCompact a false)).value.toNat < max 1 (a.toNat / 2 ^ 15) := by
  obtain ⟨nSize, hnormal, -, hvalue⟩ := getCompact_normal ha
  have hlost := sub_truncTo_lt (by decide : 0 < 256) nSize (a.toNat * 256 ^ 3)
  rw [← hvalue, ← Nat.sub_mul] at hlost
  rcases Nat.lt_or_ge nSize 3 with h3 | h3
  · -- the last byte is kept
    have hpow : 256 ^ nSize ≤ 256 ^ 3 := Nat.pow_le_pow_right (by decide) h3.le
    have hzero : a.toNat - (setCompact (getCompact a false)).value.toNat = 0 := by omega
    rw [hzero]
    exact lt_max_of_lt_left Nat.one_pos
  · have hpow : 256 ^ nSize = 256 ^ (nSize - 3) * 256 ^ 3 := by rw [← Nat.pow_add, Nat.sub_add_cancel h3]
    have hlow := hnormal.low
    rw [hpow, ← Nat.mul_assoc] at hlow
    rw [hpow] at hlost
    refine lt_max_of_lt_right ((Nat.lt_of_mul_lt_mul_right hlost).trans_le ?_)
    rw [Nat.le_div_iff_mul_le (by decide), Nat.mul_comm]
    exact Nat.le_of_mul_le_mul_right hlow (by decide)

theorem getCompact_setCompact (ha : 0 < a.toNat) :
    getCompact (setCompact (getCompact a false)).value false = getCompact a false := by
  obtain ⟨nSize, hnormal, hcompact, hvalue⟩ := getCompact_normal ha
  obtain ⟨nSize', hnormal', hcompact', -⟩ := getCompact_normal (setCompact_getCompact ha).1
  rw [hvalue] at hnormal' hcompact'
  obtain rfl := hnormal'.unique (by decide) (hnormal.truncTo (by decide))
  rw [← UInt32.toNat_inj, hcompact, hcompact', truncTo_div (by decide)]

theorem setCompact_mono {b : ArithUint256} (ha : 0 < a.toNat) (hab : a.toNat ≤ b.toNat) :
    (setCompact (getCompact a false)).value.toNat ≤ (setCompact (getCompact b false)).value.toNat := by
  obtain ⟨nSize, hnormal, -, hvalue⟩ := getCompact_normal ha
  obtain ⟨nSize', hnormal', -, hvalue'⟩ := getCompact_normal (ha.trans_le hab)
  have hle := hnormal.truncTo_le_truncTo (by decide) hnormal' (Nat.mul_le_mul_right _ hab)
  rw [← hvalue, ← hvalue'] at hle
  exact Nat.le_of_mul_le_mul_right hle (by decide)

/-- The compact form rounds a target down by less than one part in `2 ^ 15`, and a target that it stands for is not
rounded further. Rounding keeps the order of targets. -/
theorem compact_rounds_down (x : ArithUint256) :
    let y := setCompact (getCompact x false)
    y.value ≤ x ∧ x.toNat - y.value.toNat < max 1 (x.toNat / 2 ^ 15) ∧ y.fNegative = false ∧ y.fOverflow = false ∧
      getCompact y.value false = getCompact x false ∧
      ∀ x' : ArithUint256, x ≤ x' → y.value ≤ (setCompact (getCompact x' false)).value := by
  intro y
  rcases Nat.eq_zero_or_pos x.toNat with hzero | hpos
  · obtain rfl : x = 0 := BitVec.eq_of_toNat_eq hzero
    have hy : y = ⟨0, false, false⟩ := by decide +kernel
    rw [hy]
    exact ⟨BitVec.le_refl _, by decide, rfl, rfl, rfl, fun x' _ => BitVec.le_def.mpr (Nat.zero_le _)⟩
  · obtain ⟨-, hle, hneg, hover⟩ := setCompact_getCompact hpos
    exact ⟨BitVec.le_def.mpr hle, sub_setCompact_lt hpos, hneg, hover, getCompact_setCompact hpos,
      fun x' hx' => BitVec.le_def.mpr (setCompact_mono hpos (BitVec.le_def.mp hx'))⟩

/-- Two targets on either side of a change of the exponent. -/
theorem compact_rounds_down_edge :
    (0x7fffff01 : ArithUint256) ≤ 0x80000001 ∧
      (setCompact (getCompact 0x7fffff01 false)).value ≤ (setCompact (getCompact 0x80000001 false)).value ∧
      (setCompact (getCompact 0x80000001 false)).value = 0x80000000 :=
  have hle : (0x7fffff01 : ArithUint256) ≤ 0x80000001 := by decide
  ⟨hle, (compact_rounds_down 0x7fffff01).2.2.2.2.2 _ hle, by decide +kernel⟩

end ArithUint256
end Whippet.Pow
