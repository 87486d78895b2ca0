import Mathlib.Data.Nat.Bitwise
import Whippet.Lib.Limbs
import Whippet.Lib.MultiWord
import Whippet.Primitives.Transaction

/-! `arith_uint256` and the compact form of a difficulty target. -/
namespace Whippet.Pow
open Lib Primitives

/-- `arith_uint256`. Shifts, comparison, addition and subtraction are those of 256-bit words. -/
abbrev ArithUint256 := BitVec 256

namespace ArithUint256

def uintToArith256 (a : Uint256) : ArithUint256 := .ofNat 256 (leNat a.bytes)

/-- The words `pn` of a number, `n` of them and the least significant first. -/
def words : ℕ → ℕ → List UInt32
  | 0, _ => []
  | n + 1, a => .ofNat a :: words n (a / 2 ^ 32)

def ofWords (pn : List UInt32) : ArithUint256 := .ofNat 256 (Nat.ofDigits (2 ^ 32) (pn.map UInt32.toNat))

def mulLoop (b32 : UInt32) : UInt64 → List UInt32 → List UInt32
  | _, [] => []
  | carry, w :: pn =>
    let n := carry + b32.toUInt64 * w.toUInt64
    (n &&& 0xffffffff).toUInt32 :: mulLoop b32 (n >>> 32) pn

def mulUInt32 (a : ArithUint256) (b32 : UInt32) : ArithUint256 := ofWords (mulLoop b32 0 (words 8 a.toNat))

/-- `bits`: the position of the highest bit that is set, counted from one. -/
def bits (a : ArithUint256) : ℕ := a.toNat.size

/-- `operator/=`. A division by zero throws. -/
def div? (a b : ArithUint256) : Option ArithUint256 :=
  if bits b = 0 then none
  else if bits b > bits a then some 0
  else
    let shift := bits a - bits b
    some (longDiv (shift + 1) a (b <<< shift) 0)

def getLow64 (a : ArithUint256) : UInt64 := .ofNat a.toNat

structure Compact where
  value : ArithUint256
  fNegative : Bool
  fOverflow : Bool
  deriving DecidableEq, Repr

def setCompact (nCompact : UInt32) : Compact :=
  let nSize := (nCompact >>> 24).toNat
  let nWord := nCompact &&& 0x007fffff
  let (value, nWord) : ArithUint256 × UInt32 :=
    if nSize ≤ 3 then
      let nWord := nWord >>> UInt32.ofNat (8 * (3 - nSize))
      (.ofNat 256 nWord.toNat, nWord)
    else (BitVec.ofNat 256 nWord.toNat <<< (8 * (nSize - 3)), nWord)
  { value := value
    fNegative := nWord ≠ 0 ∧ nCompact &&& 0x00800000 ≠ 0
    fOverflow := nWord ≠ 0 ∧ (nSize > 34 ∨ (nWord > 0xff ∧ nSize > 33) ∨ (nWord > 0xffff ∧ nSize > 32)) }

def highBytes (a : ArithUint256) (nSize : ℕ) : UInt32 :=
  if nSize ≤ 3 then (getLow64 a <<< UInt64.ofNat (8 * (3 - nSize))).toUInt32
  else (getLow64 (a >>> (8 * (nSize - 3)))).toUInt32

def getCompact (a : ArithUint256) (fNegative : Bool) : UInt32 :=
  let nSize := (bits a + 7) / 8
  let nCompact := highBytes a nSize
  -- The bit `0x00800000` is the sign, so a mantissa that has it set loses its last byte.
  let (nCompact, nSize) := if nCompact &&& 0x00800000 ≠ 0 then (nCompact >>> 8, nSize + 1) else (nCompact, nSize)
  let nCompact := nCompact ||| UInt32.ofNat nSize <<< 24
  nCompact ||| if fNegative ∧ nCompact &&& 0x007fffff ≠ 0 then 0x00800000 else 0

theorem ofDigits_words (n a : ℕ) : Nat.ofDigits (2 ^ 32) ((words n a).map UInt32.toNat) = a % (2 ^ 32) ^ n := by
  induction n generalizing a with
  | zero => simp [words, Nat.mod_one]
  | succ n ih =>
    have hword : (UInt32.ofNat a).toNat = a % 2 ^ 32 := by simp
    rw [words, List.map_cons, Nat.ofDigits_cons, ih, hword, Nat.pow_succ' (m := 2 ^ 32), Nat.mod_mul]

theorem length_words (n a : ℕ) : (words n a).length = n := by
  induction n generalizing a with
  | zero => rfl
  | succ n ih => rw [words, List.length_cons, ih]

theorem map_mulLoop (b32 : UInt32) {carry : UInt64} (hcarry : carry.toNat < 2 ^ 32) (pn : List UInt32) :
    (mulLoop b32 carry pn).map UInt32.toNat = mulWords (2 ^ 32) b32.toNat carry.toNat (pn.map UInt32.toNat) := by
  induction pn generalizing carry with
  | nil => rfl
  | cons w pn ih =>
    have hprod : b32.toNat * w.toNat ≤ (2 ^ 32 - 1) * (2 ^ 32 - 1) :=
      Nat.mul_le_mul (Nat.le_pred_of_lt b32.toNat_lt) (Nat.le_pred_of_lt w.toNat_lt)
    have hn : (carry + b32.toUInt64 * w.toUInt64).toNat = carry.toNat + b32.toNat * w.toNat := by
      rw [UInt64.toNat_add, UInt64.toNat_mul, UInt32.toNat_toUInt64, UInt32.toNat_toUInt64]
      omega
    rw [mulLoop, List.map_cons, List.map_cons, mulWords, ih (by rw [toNat_carry, hn]; omega), toNat_carry, toNat_lowWord, hn]

theorem toNat_mulUInt32 (a : ArithUint256) (b32 : UInt32) :
    (a.mulUInt32 b32).toNat = a.toNat * b32.toNat % 2 ^ 256 := by
  rw [mulUInt32, ofWords, map_mulLoop b32 (by decide), BitVec.toNat_ofNat, ofDigits_mulWords, ofDigits_words,
    List.length_map, length_words, ← Nat.pow_mul, Nat.mod_mod, Nat.mod_eq_of_lt a.isLt]
  rfl

theorem div?_eq_some (a : ArithUint256) {b : ArithUint256} (hb : 0 < b.toNat) :
    ∃ q, div? a b = some q ∧ q.toNat = a.toNat / b.toNat := by
  have hbits : 0 < bits b := Nat.size_pos.mpr hb
  rw [div?, if_neg hbits.ne']
  split_ifs with hlt
  · have hab : a.toNat < b.toNat := (Nat.lt_size_self _).trans_le (Nat.lt_size.mp hlt)
    exact ⟨0, rfl, (Nat.div_eq_of_lt hab).symm⟩
  · -- The divisor is moved up so that its highest bit is that of the number.
    have htop : bits a = bits a - bits b + bits b := by omega
    have hle : bits a ≤ 256 := Nat.size_le.mpr a.isLt
    have ha : a.toNat < 2 ^ bits a := Nat.lt_size_self _
    have hb' : b.toNat < 2 ^ bits b := Nat.lt_size_self _
    have hlow : 2 ^ (bits b - 1) ≤ b.toNat := Nat.lt_size.mp (by rw [← bits]; omega)
    generalize hs : bits a - bits b = shift at *
    have hfit : b.toNat * 2 ^ shift < 2 ^ 256 :=
      calc b.toNat * 2 ^ shift < 2 ^ bits b * 2 ^ shift := Nat.mul_lt_mul_of_pos_right hb' (Nat.two_pow_pos shift)
        _ = 2 ^ bits a := by rw [← pow_add, htop, Nat.add_comm]
        _ ≤ 2 ^ 256 := Nat.pow_le_pow_right two_pos hle
    have hdiv : (b <<< shift).toNat = b.toNat * 2 ^ shift := by
      rw [BitVec.toNat_shiftLeft, Nat.shiftLeft_eq, Nat.mod_eq_of_lt hfit]
    have hnum : a.toNat < b.toNat * 2 ^ (shift + 1) :=
      calc a.toNat < 2 ^ bits a := ha
        _ = 2 ^ (bits b - 1) * 2 ^ (shift + 1) := by rw [← pow_add]; congr 1; omega
        _ ≤ b.toNat * 2 ^ (shift + 1) := Nat.mul_le_mul_right _ hlow
    refine ⟨_, rfl, ?_⟩
    rw [toNat_longDiv (q := 0) hb (by omega) (fun s h => by rw [hdiv, Nat.succ.inj h]) hnum rfl]
    exact Nat.zero_add _

theorem and_signBit (n : UInt32) : n &&& 0x00800000 ≠ 0 ↔ n.toNat / 2 ^ 23 % 2 = 1 := by
  have hmask : UInt32.toNat 0x00800000 = 2 ^ 23 := rfl
  rw [Ne, ← UInt32.toNat_inj, UInt32.toNat_and, hmask, Nat.and_two_pow, Nat.testBit_eq_decide_div_mod_eq]
  simp

/-- The number that a compact form stands for, whatever its size: eight bits of it are the size in bytes, and the lowest
23 are the highest bytes. -/
def compactValue (nCompact : UInt32) : ℕ :=
  let nSize := nCompact.toNat / 2 ^ 24
  let nWord := nCompact.toNat % 2 ^ 23
  if nSize ≤ 3 then nWord / 256 ^ (3 - nSize) else nWord * 256 ^ (nSize - 3)

theorem toNat_compactSize (nCompact : UInt32) : (nCompact >>> 24).toNat = nCompact.toNat / 2 ^ 24 := by
  have hshift : UInt32.toNat 24 % 32 = 24 := rfl
  rw [UInt32.toNat_shiftRight, hshift, Nat.shiftRight_eq_div_pow]

theorem toNat_compactWord (nCompact : UInt32) : (nCompact &&& 0x007fffff).toNat = nCompact.toNat % 2 ^ 23 := by
  have hmask : UInt32.toNat 0x007fffff = 2 ^ 23 - 1 := rfl
  rw [UInt32.toNat_and, hmask, Nat.and_two_pow_sub_one_eq_mod]

theorem toNat_setCompact (nCompact : UInt32) : (setCompact nCompact).value.toNat = compactValue nCompact % 2 ^ 256 := by
  have hpow : ∀ k : ℕ, 256 ^ k = 2 ^ (8 * k) := fun k => by rw [Nat.pow_mul]
  by_cases hle : nCompact.toNat / 2 ^ 24 ≤ 3
  · have hshift : (UInt32.ofNat (8 * (3 - nCompact.toNat / 2 ^ 24))).toNat % 32 = 8 * (3 - nCompact.toNat / 2 ^ 24) := by
      rw [UInt32.toNat_ofNat']
      omega
    simp only [setCompact, compactValue, toNat_compactSize, if_pos hle]
    rw [BitVec.toNat_ofNat, UInt32.toNat_shiftRight, toNat_compactWord, hshift, Nat.shiftRight_eq_div_pow, hpow]
  · simp only [setCompact, compactValue, toNat_compactSize, if_neg hle]
    rw [BitVec.toNat_shiftLeft, BitVec.toNat_ofNat, toNat_compactWord, Nat.shiftLeft_eq, hpow, Nat.mod_mul_mod]

/-- A target below the 30th byte is decoded without loss: what is shifted out would have left a multiple of `2 ^ 240`. -/
theorem toNat_setCompact_of_lt {nCompact : UInt32} (hpos : 0 < (setCompact nCompact).value.toNat)
    (hlt : (setCompact nCompact).value.toNat < 2 ^ 240) :
    (setCompact nCompact).value.toNat = compactValue nCompact := by
  have hword : nCompact.toNat % 2 ^ 23 < 2 ^ 23 := Nat.mod_lt _ (by norm_num)
  rw [toNat_setCompact] at hpos hlt ⊢
  refine Nat.mod_eq_of_lt ?_
  simp only [compactValue] at hpos hlt ⊢
  split_ifs at hpos hlt ⊢ with hle
  · exact (Nat.div_le_self _ _).trans_lt (hword.trans (by norm_num))
  · generalize nCompact.toNat % 2 ^ 23 = nWord at *
    generalize nCompact.toNat / 2 ^ 24 - 3 = shift at *
    rcases Nat.lt_or_ge shift 30 with hshift | hshift
    · calc nWord * 256 ^ shift ≤ nWord * 256 ^ 29 :=
            Nat.mul_le_mul_left _ (Nat.pow_le_pow_right (by norm_num) (by omega))
        _ < 2 ^ 23 * 256 ^ 29 := Nat.mul_lt_mul_of_pos_right hword (by norm_num)
        _ < 2 ^ 256 := by norm_num
    · exfalso
      have hdvd : 2 ^ 240 ∣ nWord * 256 ^ shift % 2 ^ 256 := by
        refine (Nat.dvd_mod_iff (by norm_num)).mpr (Dvd.dvd.mul_left ?_ nWord)
        rw [show 2 ^ 240 = 256 ^ 30 by norm_num]
        exact pow_dvd_pow 256 hshift
      exact absurd (Nat.le_of_dvd hpos hdvd) (Nat.not_le.mpr hlt)

theorem setCompact_of_parts {nCompact : UInt32} {nSize nWord : ℕ} (hword : nWord < 2 ^ 23)
    (h : nCompact.toNat = nWord + 2 ^ 24 * nSize) (hsize : nSize ≤ 33) (hlast : nSize = 33 → nWord < 2 ^ 16) :
    (setCompact nCompact).fNegative = false ∧ (setCompact nCompact).fOverflow = false ∧
      compactValue nCompact = if nSize ≤ 3 then nWord / 256 ^ (3 - nSize) else nWord * 256 ^ (nSize - 3) := by
  have hsize' : nCompact.toNat / 2 ^ 24 = nSize := by omega
  have hword' : nCompact.toNat % 2 ^ 23 = nWord := by omega
  have hsign : ¬ nCompact &&& 0x00800000 ≠ 0 := by
    rw [and_signBit]
    omega
  refine ⟨?_, ?_, ?_⟩
  · simp only [setCompact, hsign, and_false, decide_false]
  · simp only [setCompact, toNat_compactSize, hsize']
    refine decide_eq_false fun ⟨_, hover⟩ => ?_
    obtain h34 | ⟨-, h33⟩ | ⟨hgt, h32⟩ := hover
    · omega
    · omega
    · rw [if_neg (by omega)] at hgt
      have hlt : (0xffff : UInt32).toNat < (nCompact &&& 0x007fffff).toNat := UInt32.lt_iff_toNat_lt.mp hgt
      have hmask : UInt32.toNat 0xffff = 2 ^ 16 - 1 := rfl
      rw [toNat_compactWord, hword', hmask] at hlt
      have hlow := hlast (by omega)
      omega
  · simp only [compactValue, hsize', hword']

theorem highBytes_spec {a : ArithUint256} (ha : 0 < a.toNat) {nSize : ℕ} (hsize : nSize = (bits a + 7) / 8) :
    nSize ≤ 32 ∧ a.toNat < 256 ^ nSize ∧ 2 ^ 16 ≤ (highBytes a nSize).toNat ∧ (highBytes a nSize).toNat < 2 ^ 24 ∧
      (highBytes a nSize).toNat = if nSize ≤ 3 then a.toNat * 256 ^ (3 - nSize) else a.toNat / 256 ^ (nSize - 3) := by
  have hpow : ∀ k : ℕ, 256 ^ k = 2 ^ (8 * k) := fun k => by rw [Nat.pow_mul]
  have hbits : 0 < bits a := Nat.size_pos.mpr ha
  have hle : bits a ≤ 256 := Nat.size_le.mpr a.isLt
  have hlt : a.toNat < 256 ^ nSize := by
    rw [hpow]
    exact (Nat.lt_size_self _).trans_le (Nat.pow_le_pow_right two_pos (by rw [← bits]; omega))
  have hge : 256 ^ (nSize - 1) ≤ a.toNat := by
    rw [hpow]
    exact Nat.lt_size.mp (by rw [← bits]; omega)
  have hrange : 2 ^ 16 ≤ (if nSize ≤ 3 then a.toNat * 256 ^ (3 - nSize) else a.toNat / 256 ^ (nSize - 3)) ∧
      (if nSize ≤ 3 then a.toNat * 256 ^ (3 - nSize) else a.toNat / 256 ^ (nSize - 3)) < 2 ^ 24 := by
    split_ifs with hsmall
    · obtain rfl | rfl | rfl : nSize = 1 ∨ nSize = 2 ∨ nSize = 3 := by omega
      all_goals norm_num at hlt hge ⊢; omega
    · constructor
      · rw [Nat.le_div_iff_mul_le (by positivity), show 2 ^ 16 = 256 ^ 2 by norm_num, ← pow_add]
        exact (Nat.pow_le_pow_right (by norm_num) (by omega)).trans hge
      · refine Nat.div_lt_of_lt_mul (hlt.trans_le ?_)
        rw [show 2 ^ 24 = 256 ^ 3 by norm_num, ← pow_add]
        exact Nat.pow_le_pow_right (by norm_num) (by omega)
  have hhigh : (highBytes a nSize).toNat =
      if nSize ≤ 3 then a.toNat * 256 ^ (3 - nSize) else a.toNat / 256 ^ (nSize - 3) := by
    rw [highBytes]
    split_ifs at hrange ⊢ with hsmall
    · have hshift : (UInt64.ofNat (8 * (3 - nSize))).toNat % 64 = 8 * (3 - nSize) := by
        rw [UInt64.toNat_ofNat']
        omega
      have hlow : (getLow64 a).toNat = a.toNat := by
        rw [getLow64, UInt64.toNat_ofNat']
        have hself : a.toNat * 1 ≤ a.toNat * 256 ^ (3 - nSize) := Nat.mul_le_mul_left _ (Nat.one_le_pow _ _ (by norm_num))
        omega
      rw [UInt64.toNat_toUInt32, UInt64.toNat_shiftLeft, hshift, hlow, Nat.shiftLeft_eq, ← hpow]
      omega
    · rw [UInt64.toNat_toUInt32, getLow64, UInt64.toNat_ofNat', BitVec.toNat_ushiftRight, Nat.shiftRight_eq_div_pow,
        ← hpow]
      omega
  exact ⟨by omega, hlt, hhigh ▸ hrange.1, hhigh ▸ hrange.2, hhigh⟩

theorem getCompact_parts {a : ArithUint256} (ha : 0 < a.toNat) :
    ∃ nSize nWord, (getCompact a false).toNat = nWord + 2 ^ 24 * nSize ∧ 2 ^ 15 ≤ nWord ∧ nWord < 2 ^ 23 ∧ nSize ≤ 33 ∧
      (nSize = 33 → nWord < 2 ^ 16) ∧
      nWord = if nSize ≤ 3 then a.toNat * 256 ^ (3 - nSize) else a.toNat / 256 ^ (nSize - 3) := by
  obtain ⟨hmax, hlt, hge, hlt24, hhigh⟩ := highBytes_spec ha rfl
  have hpack : ∀ {m : UInt32} {n : ℕ}, m.toNat < 2 ^ 23 → n < 256 →
      ((m ||| UInt32.ofNat n <<< 24) ||| 0).toNat = m.toNat + 2 ^ 24 * n := by
    intro m n hm hn
    have hshift : (UInt32.ofNat n <<< 24).toNat = 2 ^ 24 * n := by
      have h24 : UInt32.toNat 24 % 32 = 24 := rfl
      rw [UInt32.toNat_shiftLeft, h24, UInt32.toNat_ofNat', Nat.shiftLeft_eq]
      omega
    rw [UInt32.or_zero, UInt32.toNat_or, hshift, Nat.or_comm, ← Nat.two_pow_add_eq_or_of_lt (by omega), Nat.add_comm]
  generalize hs : (bits a + 7) / 8 = nSize at *
  by_cases hsign : highBytes a nSize &&& 0x00800000 ≠ 0
  · have hsign' := hsign
    rw [and_signBit] at hsign'
    have hcut : (highBytes a nSize >>> 8).toNat = (highBytes a nSize).toNat / 256 := by
      have h8 : UInt32.toNat 8 % 32 = 8 := rfl
      rw [UInt32.toNat_shiftRight, h8, Nat.shiftRight_eq_div_pow]
    refine ⟨nSize + 1, (highBytes a nSize >>> 8).toNat, ?_, by omega, by omega, by omega, by omega, ?_⟩
    · rw [← hpack (by omega) (by omega)]
      simp only [getCompact, hs, if_pos hsign, Bool.false_eq_true, false_and, if_false]
    · rw [hcut, hhigh]
      rcases Nat.lt_or_ge nSize 3 with hsmall | hlarge
      · rw [if_pos (by omega), if_pos (by omega), show 3 - nSize = 3 - (nSize + 1) + 1 by omega, pow_succ,
          ← Nat.mul_assoc, Nat.mul_div_cancel _ (by norm_num)]
      · rw [if_neg (by omega : ¬ nSize + 1 ≤ 3), show nSize + 1 - 3 = nSize - 3 + 1 by omega, pow_succ,
          ← Nat.div_div_eq_div_mul]
        split_ifs with h3
        · obtain rfl : nSize = 3 := by omega
          simp
        · rfl
  · have hsign' := hsign
    rw [and_signBit] at hsign'
    refine ⟨nSize, (highBytes a nSize).toNat, ?_, by omega, by omega, by omega, by omega, hhigh⟩
    rw [← hpack (by omega) (by omega)]
    simp only [getCompact, hs, if_neg hsign, Bool.false_eq_true, false_and, if_false]

theorem setCompact_getCompact {a : ArithUint256} (ha : 0 < a.toNat) :
    0 < (setCompact (getCompact a false)).value.toNat ∧ (setCompact (getCompact a false)).value.toNat ≤ a.toNat ∧
      (setCompact (getCompact a false)).fNegative = false ∧ (setCompact (getCompact a false)).fOverflow = false := by
  obtain ⟨nSize, nWord, hcompact, hge, hlt, hsize, hlast, hword⟩ := getCompact_parts ha
  have hpos : 0 < nWord := by omega
  obtain ⟨hneg, hover, hvalue⟩ := setCompact_of_parts hlt hcompact hsize hlast
  have hle : 0 < compactValue (getCompact a false) ∧ compactValue (getCompact a false) ≤ a.toNat := by
    rw [hvalue]
    split_ifs at hword ⊢ with h3
    · rw [hword, Nat.mul_div_cancel _ (by positivity)]
      exact ⟨ha, le_refl _⟩
    · refine ⟨by positivity, ?_⟩
      rw [hword]
      exact Nat.div_mul_le_self _ _
  rw [toNat_setCompact, Nat.mod_eq_of_lt (hle.2.trans_lt a.isLt)]
  exact ⟨hle.1, hle.2, hneg, hover⟩

end ArithUint256
end Whippet.Pow
