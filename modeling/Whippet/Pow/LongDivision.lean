import Whippet.Pow.ArithUint256
import Whippet.Pow.BaseUint

/-! `operator/=` of `base_uint`, which finds the bits of the quotient from the highest down, and the words behind
`arith_uint256`. -/
namespace Whippet.Pow
open Lib

structure DivState (width : ℕ) where
  num : BaseUint width
  div : BaseUint width
  quotient : BaseUint width
  deriving DecidableEq, Repr

namespace DivState
variable {width : ℕ}

def round (s : DivState width) (shift : ℕ) : DivState width :=
  if 0 ≤ s.num.compareTo s.div then
    { num := s.num.sub s.div
      div := s.div.shr 1
      quotient := s.quotient.orWord (shift / 32) (1 <<< UInt32.ofNat (shift &&& 31)) }
  else { s with div := s.div.shr 1 }

def loop : ℕ → DivState width → DivState width
  | 0, s => s
  | shift + 1, s => loop shift (s.round shift)

/-- The variables each time that the body is entered, with the bit it looks at. -/
def visited : ℕ → DivState width → List (ℕ × DivState width)
  | 0, _ => []
  | shift + 1, s => (shift, s) :: visited shift (s.round shift)

end DivState

namespace BaseUint
variable {width : ℕ}

def aligned (a b : BaseUint width) : DivState width := ⟨a, b.shl (a.bits - b.bits), zero⟩

def div (a b : BaseUint width) : Except String (BaseUint width) :=
  if b.bits = 0 then .error "Division by zero"
  else if b.bits > a.bits then .ok zero
  else .ok ((a.aligned b).loop (a.bits - b.bits + 1)).quotient

end BaseUint

namespace DivState
variable {width a b n shift : ℕ} {s : DivState width}

/-- With the bits below `n` to find, `div` is the divisor moved up to the next one, `num` is what the bits found so far
leave of the number, and `quotient` has no other bits. -/
structure Inv (a b n : ℕ) (s : DivState width) : Prop where
  div_eq : ∀ shift, n = shift + 1 → s.div.value = b * 2 ^ shift
  num_lt : s.num.value < b * 2 ^ n
  num_eq : s.quotient.value * b + s.num.value = a
  dvd : 2 ^ n ∣ s.quotient.value

theorem inv_round (hshift : shift < 32 * width) (h : Inv a b (shift + 1) s) : Inv a b shift (s.round shift) := by
  have hdiv := h.div_eq shift rfl
  have hhalf : ∀ shift', shift = shift' + 1 → (s.div.shr 1).value = b * 2 ^ shift' := by
    rintro shift' rfl
    rw [BaseUint.value_shr, hdiv, Nat.pow_succ, Nat.pow_one, ← Nat.mul_assoc, Nat.mul_div_cancel _ two_pos]
  obtain ⟨q, hq⟩ := h.dvd
  rw [round]
  split_ifs with hle
  · rw [BaseUint.compareTo_nonneg] at hle
    have hnum : (s.num.sub s.div).value = s.num.value - s.div.value := BaseUint.value_sub hle
    have hquot : (s.quotient.orWord (shift / 32) (1 <<< UInt32.ofNat (shift &&& 31))).value =
        s.quotient.value + 2 ^ shift := by
      rw [show shift &&& 31 = shift % 32 from Nat.and_two_pow_sub_one_eq_mod shift 5]
      exact BaseUint.value_orBit hshift hq
    refine ⟨hhalf, ?_, ?_, ?_⟩
    · have hlt := h.num_lt
      rw [Nat.pow_succ, ← Nat.mul_assoc] at hlt
      rw [hnum]
      omega
    · have heq := h.num_eq
      rw [hnum, hquot, Nat.add_mul, Nat.mul_comm (2 ^ shift), ← hdiv]
      omega
    · rw [hquot, hq, Nat.pow_succ, Nat.mul_assoc]
      exact (Nat.dvd_add_right (Nat.dvd_mul_right _ _)).mpr dvd_rfl
  · rw [BaseUint.compareTo_nonneg, not_le, hdiv] at hle
    exact ⟨hhalf, hle, h.num_eq, (Nat.pow_dvd_pow 2 (Nat.le_succ shift)).trans h.dvd⟩

theorem inv_loop (hn : n ≤ 32 * width) (h : Inv a b n s) : Inv a b 0 (s.loop n) := by
  induction n generalizing s with
  | zero => exact h
  | succ shift ih => exact ih (Nat.le_of_succ_le hn) (inv_round hn h)

theorem inv_visited (hn : n ≤ 32 * width) (h : Inv a b n s) : ∀ p ∈ s.visited n, Inv a b (p.1 + 1) p.2 := by
  induction n generalizing s with
  | zero => exact nofun
  | succ shift ih => exact List.forall_mem_cons.mpr ⟨h, ih (Nat.le_of_succ_le hn) (inv_round hn h)⟩

theorem Inv.quotient_eq (hb : 0 < b) (h : Inv a b 0 s) : s.quotient.value = a / b ∧ s.num.value = a % b := by
  have hlt : s.num.value < b := by simpa using h.num_lt
  rw [← h.num_eq, Nat.mul_comm, Nat.mul_add_mod, Nat.mul_add_div hb, Nat.div_eq_of_lt hlt, Nat.mod_eq_of_lt hlt]
  exact ⟨rfl, rfl⟩

end DivState

namespace BaseUint
variable {width : ℕ} {a b : BaseUint width}

theorem bits_pos (hb : b.value ≠ 0) : 0 < b.bits := by
  rw [bits_eq]
  exact Nat.size_pos.mpr (Nat.pos_of_ne_zero hb)

theorem bits_le (a : BaseUint width) : a.bits ≤ 32 * width := by
  rw [bits_eq]
  exact Nat.size_le.mpr a.value_lt

theorem value_shl_aligned (hle : b.bits ≤ a.bits) :
    (b.shl (a.bits - b.bits)).value = b.value * 2 ^ (a.bits - b.bits) := by
  have hb : b.value < 2 ^ b.bits := by rw [bits_eq]; exact Nat.lt_size_self _
  rw [value_shl, Nat.mod_eq_of_lt]
  calc b.value * 2 ^ (a.bits - b.bits) < 2 ^ b.bits * 2 ^ (a.bits - b.bits) :=
        Nat.mul_lt_mul_of_pos_right hb (Nat.two_pow_pos _)
    _ = 2 ^ a.bits := by rw [← Nat.pow_add, Nat.add_sub_cancel' hle]
    _ ≤ 2 ^ (32 * width) := Nat.pow_le_pow_right two_pos a.bits_le

theorem inv_aligned (hb : b.value ≠ 0) (hle : b.bits ≤ a.bits) :
    DivState.Inv a.value b.value (a.bits - b.bits + 1) (a.aligned b) where
  div_eq shift hshift := by rw [← Nat.succ.inj hshift]; exact value_shl_aligned hle
  num_lt := by
    have hpos := bits_pos hb
    have ha : a.value < 2 ^ a.bits := by rw [bits_eq]; exact Nat.lt_size_self _
    have hlow : 2 ^ (b.bits - 1) ≤ b.value := Nat.lt_size.mp (by rw [← bits_eq]; omega)
    calc a.value < 2 ^ a.bits := ha
      _ = 2 ^ (b.bits - 1) * 2 ^ (a.bits - b.bits + 1) := by rw [← Nat.pow_add]; congr 1; omega
      _ ≤ b.value * 2 ^ (a.bits - b.bits + 1) := Nat.mul_le_mul_right _ hlow
  num_eq := by simp [aligned, value_zero]
  dvd := by simp [aligned, value_zero]

theorem value_div (hb : b.value ≠ 0) : ∃ q, a.div b = .ok q ∧ q.value = a.value / b.value := by
  have hpos := bits_pos hb
  rw [div, if_neg hpos.ne']
  split_ifs with hlt
  · have hab : a.value < b.value := by
      rw [bits_eq, bits_eq] at hlt
      exact (Nat.lt_size_self _).trans_le (Nat.lt_size.mp hlt)
    exact ⟨zero, rfl, by rw [value_zero, Nat.div_eq_of_lt hab]⟩
  · have hbits := a.bits_le
    have hinv := DivState.inv_loop (by omega) (inv_aligned hb (not_lt.mp hlt))
    exact ⟨_, rfl, (hinv.quotient_eq (Nat.pos_of_ne_zero hb)).1⟩

/-- Long division finds the quotient. The divisor loses no bit when it is aligned. Whenever the body of the loop is
entered, the remainder so far is what the bits found leave of the number, so that no subtraction has gone below zero, and
it is less than twice the divisor, which stands at the bit that is looked at. -/
theorem div_spec (a b : BaseUint 8) (hb : b.value ≠ 0) :
    (∃ q, a.div b = .ok q ∧ q.value = a.value / b.value) ∧
      (b.bits ≤ a.bits → (b.shl (a.bits - b.bits)).value = b.value * 2 ^ (a.bits - b.bits) ∧
        (∀ p ∈ (a.aligned b).visited (a.bits - b.bits + 1), p.2.div.value = b.value * 2 ^ p.1 ∧
          p.2.num.value < 2 * p.2.div.value ∧ (p.2.num.value : ℤ) = a.value - p.2.quotient.value * b.value) ∧
        ((a.aligned b).loop (a.bits - b.bits + 1)).num.value = a.value % b.value) := by
  refine ⟨value_div hb, fun hle => ⟨value_shl_aligned hle, ?_, ?_⟩⟩
  · rintro ⟨shift, s⟩ hmem
    have hbits := a.bits_le
    have hpos := bits_pos hb
    have hinv := DivState.inv_visited (by omega) (inv_aligned hb hle) _ hmem
    have hdiv := hinv.div_eq shift rfl
    have hlt := hinv.num_lt
    have heq := hinv.num_eq
    rw [Nat.pow_succ, ← Nat.mul_assoc, ← hdiv] at hlt
    refine ⟨hdiv, by omega, ?_⟩
    rw [← heq]
    push_cast
    ring
  · have hbits := a.bits_le
    have hpos := bits_pos hb
    have hinv := DivState.inv_loop (by omega) (inv_aligned hb hle)
    exact (hinv.quotient_eq (Nat.pos_of_ne_zero hb)).2

def ofWord (w : UInt32) : BaseUint 8 := ⟨w :: List.replicate 7 0, rfl⟩

theorem div_spec_seven :
    (ofWord 7).value ≠ 0 ∧ (ofWord 7).bits ≤ (ofWord 1000).bits ∧
      (∃ q, (ofWord 1000).div (ofWord 7) = .ok q ∧ q.value = (ofWord 1000).value / (ofWord 7).value) ∧
      (((ofWord 1000).aligned (ofWord 7)).loop ((ofWord 1000).bits - (ofWord 7).bits + 1)).num.value =
        (ofWord 1000).value % (ofWord 7).value := by
  have hne : (ofWord 7).value ≠ 0 := by decide +kernel
  have hle : (ofWord 7).bits ≤ (ofWord 1000).bits := by decide +kernel
  have hspec := div_spec (ofWord 1000) (ofWord 7) hne
  exact ⟨hne, hle, hspec.1, (hspec.2 hle).2.2⟩

theorem value_injective : Function.Injective (value : BaseUint width → ℕ) := by
  rintro ⟨pn, hpn⟩ ⟨pn', hpn'⟩ h
  have hlt : ∀ l : List UInt32, ∀ d ∈ l.map UInt32.toNat, d < 2 ^ 32 := by
    intro l d hd
    obtain ⟨w, -, rfl⟩ := List.mem_map.mp hd
    exact w.toNat_lt
  have hdigits := Nat.ofDigits_inj_of_len_eq (by decide) (by simp [hpn, hpn']) (hlt pn) (hlt pn') h
  obtain rfl := List.map_injective_iff.mpr (fun _ _ => UInt32.toNat_inj.mp) hdigits
  rfl

end BaseUint

namespace ArithUint256

def limbs (a : ArithUint256) : BaseUint 8 := ⟨words 8 a.toNat, length_words 8 _⟩

@[simp] theorem value_limbs (a : ArithUint256) : a.limbs.value = a.toNat := by
  rw [BaseUint.value, limbsValue, limbs, ofDigits_words, ← Nat.pow_mul, Nat.mod_eq_of_lt a.isLt]

variable (a b : ArithUint256)

theorem limbs_shl (shift : ℕ) : limbs (a <<< shift) = a.limbs.shl shift :=
  BaseUint.value_injective (by simp [BaseUint.value_shl, Nat.shiftLeft_eq])

theorem limbs_shr (shift : ℕ) : limbs (a >>> shift) = a.limbs.shr shift :=
  BaseUint.value_injective (by simp [BaseUint.value_shr, Nat.shiftRight_eq_div_pow])

theorem limbs_add : limbs (a + b) = a.limbs.add b.limbs :=
  BaseUint.value_injective (by simp [BaseUint.value_add])

theorem limbs_sub : limbs (a - b) = a.limbs.sub b.limbs :=
  BaseUint.value_injective (by simp [BaseUint.sub, BaseUint.value_add, BaseUint.value_neg, Nat.add_comm])

theorem limbs_compareTo : a.limbs.compareTo b.limbs = if a < b then -1 else if b < a then 1 else 0 := by
  simp only [BaseUint.compareTo_eq, value_limbs, BitVec.lt_def]

theorem limbs_bits : a.limbs.bits = a.bits := by
  rw [BaseUint.bits_eq, value_limbs, bits]

theorem limbs_div : (a.limbs.div b.limbs).toOption = (a.div? b).map limbs := by
  by_cases hb : b.toNat = 0
  · have hbits : b.bits = 0 := by rw [bits, hb]; rfl
    rw [BaseUint.div, div?, limbs_bits b, if_pos hbits, if_pos hbits]
    rfl
  · obtain ⟨q, hdiv, hq⟩ := BaseUint.value_div (a := a.limbs) (b := b.limbs) (by simpa using hb)
    obtain ⟨q', hdiv', hq'⟩ := div?_eq_some a (Nat.pos_of_ne_zero hb)
    have hlimbs : q = q'.limbs := BaseUint.value_injective (by simpa [hq'] using hq)
    rw [hdiv, hdiv', hlimbs]
    rfl

theorem limbs_bijective : Function.Bijective limbs := by
  constructor
  · intro a b h
    exact BitVec.eq_of_toNat_eq (by rw [← value_limbs, h, value_limbs])
  · intro x
    exact ⟨.ofNat 256 x.value, BaseUint.value_injective (by simpa using x.value_lt)⟩

end ArithUint256
end Whippet.Pow
