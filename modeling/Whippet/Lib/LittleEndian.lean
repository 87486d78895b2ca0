import Mathlib.Data.Nat.Digits.Lemmas
import Mathlib.Tactic.Ring

/-! Little-endian byte strings and the natural numbers they denote. -/
namespace Whippet.Lib

abbrev Bytes := List UInt8

def leBytes : ℕ → ℕ → Bytes
  | 0, _ => []
  | w + 1, n => UInt8.ofNat n :: leBytes w (n / 256)

def leNat : Bytes → ℕ
  | [] => 0
  | b :: bs => b.toNat + 256 * leNat bs

def minimalBytes (n : ℕ) : Bytes := (Nat.digits 256 n).map UInt8.ofNat

@[simp] theorem leBytes_length (w n : ℕ) : (leBytes w n).length = w := by
  induction w generalizing n with
  | zero => rfl
  | succ w ih => simp [leBytes, ih]

@[simp] theorem leNat_nil : leNat [] = 0 := rfl

@[simp] theorem leNat_cons (b : UInt8) (bs : Bytes) : leNat (b :: bs) = b.toNat + 256 * leNat bs := rfl

theorem leNat_append (a b : Bytes) : leNat (a ++ b) = leNat a + 256 ^ a.length * leNat b := by
  induction a with
  | nil => simp
  | cons x a ih =>
    simp only [List.cons_append, leNat_cons, ih, List.length_cons, pow_succ]
    ring

theorem leNat_lt (bs : Bytes) : leNat bs < 256 ^ bs.length := by
  induction bs with
  | nil => simp
  | cons b bs ih =>
    have hb := b.toNat_lt
    simp only [leNat_cons, List.length_cons, pow_succ]
    omega

theorem leNat_leBytes (w n : ℕ) : leNat (leBytes w n) = n % 256 ^ w := by
  induction w generalizing n with
  | zero => simp [leBytes, Nat.mod_one]
  | succ w ih =>
    have hb : (UInt8.ofNat n).toNat = n % 256 := by simp
    rw [leBytes, leNat_cons, ih, hb, pow_succ, Nat.mul_comm (256 ^ w) 256, Nat.mod_mul]

theorem leNat_leBytes_of_lt {w n : ℕ} (h : n < 256 ^ w) : leNat (leBytes w n) = n := by
  rw [leNat_leBytes, Nat.mod_eq_of_lt h]

theorem leBytes_leNat (bs : Bytes) : leBytes bs.length (leNat bs) = bs := by
  induction bs with
  | nil => rfl
  | cons b bs ih =>
    have hb := b.toNat_lt
    have hmod : UInt8.ofNat (b.toNat + 256 * leNat bs) = b := by
      apply UInt8.toNat_inj.mp
      simp only [UInt8.toNat_ofNat']
      omega
    have hdiv : (b.toNat + 256 * leNat bs) / 256 = leNat bs := by omega
    rw [List.length_cons, leNat_cons, leBytes, hmod, hdiv, ih]

theorem leBytes_inj {w m n : ℕ} (hm : m < 256 ^ w) (hn : n < 256 ^ w)
    (h : leBytes w m = leBytes w n) : m = n := by
  rw [← leNat_leBytes_of_lt hm, ← leNat_leBytes_of_lt hn, h]

def readLe? (w : ℕ) (bs : Bytes) : Option (ℕ × Bytes) :=
  if bs.length < w then none else some (leNat (bs.take w), bs.drop w)

theorem readLe?_append {w n : ℕ} (rest : Bytes) (h : n < 256 ^ w) :
    readLe? w (leBytes w n ++ rest) = some (n, rest) := by
  have htake : (leBytes w n ++ rest).take w = leBytes w n := List.take_left' (leBytes_length w n)
  have hdrop : (leBytes w n ++ rest).drop w = rest := List.drop_left' (leBytes_length w n)
  simp [readLe?, htake, hdrop, leNat_leBytes_of_lt h]

theorem readLe?_eq_some {w n : ℕ} {bs rest : Bytes} (h : readLe? w bs = some (n, rest)) :
    n < 256 ^ w ∧ bs = leBytes w n ++ rest := by
  unfold readLe? at h
  split_ifs at h with hlen
  obtain ⟨rfl, rfl⟩ : leNat (bs.take w) = n ∧ bs.drop w = rest := by simpa using h
  have htake : (bs.take w).length = w := by simp; omega
  refine ⟨by simpa [htake] using leNat_lt (bs.take w), ?_⟩
  have hbytes := leBytes_leNat (bs.take w)
  rw [htake] at hbytes
  rw [hbytes, List.take_append_drop]

theorem leNat_eq_ofDigits (bs : Bytes) : leNat bs = Nat.ofDigits 256 (bs.map UInt8.toNat) := by
  induction bs with
  | nil => rfl
  | cons b bs ih => simp [Nat.ofDigits_cons, ih]

theorem toNat_minimalBytes (n : ℕ) : (minimalBytes n).map UInt8.toNat = Nat.digits 256 n := by
  have hid : ∀ d ∈ Nat.digits 256 n, (UInt8.toNat ∘ UInt8.ofNat) d = d := by
    intro d hd
    have hlt : d < 256 := Nat.digits_lt_base (by omega) hd
    simp [Nat.mod_eq_of_lt hlt]
  rw [minimalBytes, List.map_map, List.map_congr_left hid, List.map_id']

theorem leNat_minimalBytes (n : ℕ) : leNat (minimalBytes n) = n := by
  rw [leNat_eq_ofDigits, toNat_minimalBytes, Nat.ofDigits_digits]

theorem minimalBytes_concat {n : ℕ} (hn : n ≠ 0) :
    ∃ lo back, minimalBytes n = lo ++ [back] ∧ back.toNat ≠ 0 := by
  rcases List.eq_nil_or_concat (minimalBytes n) with hnil | ⟨lo, back, hlo⟩
  · have hzero := leNat_minimalBytes n
    rw [hnil] at hzero
    exact absurd hzero.symm hn
  · refine ⟨lo, back, by simpa using hlo, ?_⟩
    have hdigits := toNat_minimalBytes n
    rw [hlo, List.concat_eq_append, List.map_append, List.map_singleton] at hdigits
    have hlast := Nat.getLast_digit_ne_zero 256 hn
    simpa [← hdigits] using hlast

theorem minimalBytes_leNat_concat (lo : Bytes) (back : UInt8) (hb : back.toNat ≠ 0) :
    minimalBytes (leNat (lo ++ [back])) = lo ++ [back] := by
  have hdigits := Nat.digits_ofDigits 256 (by omega) ((lo ++ [back]).map UInt8.toNat)
    (by
      intro d hd
      obtain ⟨b, -, rfl⟩ := List.mem_map.mp hd
      exact b.toNat_lt)
    (by simpa using hb)
  have hid : (UInt8.ofNat ∘ UInt8.toNat) = id := by
    funext b
    simp
  rw [minimalBytes, leNat_eq_ofDigits, hdigits, List.map_map, hid, List.map_id]

end Whippet.Lib
