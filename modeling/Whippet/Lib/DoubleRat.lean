import Mathlib.Data.Int.Log
import Mathlib.Data.Rat.Floor
import Mathlib.Tactic.FieldSimp
import Mathlib.Tactic.Linarith
import Mathlib.Tactic.Positivity

/-! Rational numbers as IEEE doubles hold them: 53 significant bits, rounded to the nearest even. Overflow and
gradual underflow are left out. -/
namespace Whippet.Lib

def nearestInt (x : ℚ) : ℤ :=
  if (⌊x + 1 / 2⌋ : ℚ) = x + 1 / 2 ∧ ⌊x + 1 / 2⌋ % 2 = 1 then ⌊x + 1 / 2⌋ - 1 else ⌊x + 1 / 2⌋

def ulp (q : ℚ) : ℚ := 2 ^ (Int.log 2 |q| - 52)

def toDouble (q : ℚ) : ℚ := nearestInt (q / ulp q) * ulp q

variable {n : ℤ} {x : ℚ}

theorem le_nearestInt (h : (n : ℚ) ≤ x) : n ≤ nearestInt x := by
  have hfloor : n ≤ ⌊x + 1 / 2⌋ := Int.le_floor.mpr (by linarith)
  unfold nearestInt
  split_ifs with htie
  · have hlt : (n : ℚ) < (⌊x + 1 / 2⌋ : ℤ) := by rw [htie.1]; linarith
    have := Int.cast_lt.mp hlt
    omega
  · exact hfloor

theorem nearestInt_le (h : x ≤ n) : nearestInt x ≤ n := by
  have hfloor : ⌊x + 1 / 2⌋ < n + 1 := Int.floor_lt.mpr (by push_cast; linarith)
  unfold nearestInt
  split_ifs <;> omega

theorem lt_nearestInt (h : (n : ℚ) + 1 / 2 < x) : n < nearestInt x := by
  have hfloor : n + 1 ≤ ⌊x + 1 / 2⌋ := Int.le_floor.mpr (by push_cast; linarith)
  unfold nearestInt
  split_ifs with htie
  · have hlt : ((n + 1 : ℤ) : ℚ) < (⌊x + 1 / 2⌋ : ℤ) := by rw [htie.1]; push_cast; linarith
    have := Int.cast_lt.mp hlt
    omega
  · omega

theorem ulp_pos (q : ℚ) : 0 < ulp q := zpow_pos (by norm_num) _

@[simp] theorem toDouble_zero : toDouble 0 = 0 := by
  have hnear : nearestInt 0 = 0 := by decide +kernel
  rw [toDouble, zero_div, hnear, Int.cast_zero, zero_mul]

variable {q : ℚ}

theorem two_pow_log (hq : 0 < q) : (2 : ℚ) ^ Int.log 2 q = 2 ^ 52 * ulp q := by
  rw [ulp, abs_of_pos hq, zpow_sub₀ two_ne_zero]
  norm_num
  ring

theorem div_ulp_int (hlt : |q| < 2 ^ 53) (n : ℤ) : ∃ m : ℤ, (n : ℚ) / ulp q = m := by
  have hlog : Int.log 2 |q| ≤ 52 := by
    rcases eq_or_ne q 0 with rfl | hq
    · simp
    · have := (Int.lt_zpow_iff_log_lt one_lt_two (abs_pos.mpr hq)).mp (show |q| < (2 : ℚ) ^ (53 : ℤ) by exact_mod_cast hlt)
      omega
  obtain ⟨s, hs⟩ := Int.eq_ofNat_of_zero_le (show 0 ≤ 52 - Int.log 2 |q| by omega)
  refine ⟨n * 2 ^ s, ?_⟩
  have hulp : ulp q = (2 ^ s)⁻¹ := by
    rw [ulp, ← zpow_natCast, ← zpow_neg, ← hs]
    congr 1
    omega
  rw [hulp, div_inv_eq_mul]
  push_cast
  rfl

theorem toDouble_intCast (h : |n| < 2 ^ 53) : toDouble n = n := by
  obtain ⟨m, hm⟩ := div_ulp_int (q := n) (by exact_mod_cast h) n
  have hnear : nearestInt m = m := le_antisymm (nearestInt_le le_rfl) (le_nearestInt le_rfl)
  rw [toDouble, hm, hnear, ← hm, div_mul_cancel₀ _ (ulp_pos _).ne']

theorem toDouble_le (hlt : |q| < 2 ^ 53) (h : q ≤ n) : toDouble q ≤ n := by
  obtain ⟨m, hm⟩ := div_ulp_int hlt n
  have hle : q / ulp q ≤ m := by
    rw [← hm]
    exact div_le_div_of_nonneg_right h (ulp_pos q).le
  calc
    toDouble q ≤ m * ulp q := mul_le_mul_of_nonneg_right (by exact_mod_cast nearestInt_le hle) (ulp_pos q).le
    _ = n := by rw [← hm, div_mul_cancel₀ _ (ulp_pos q).ne']

theorem lt_toDouble (hlt : |q| < 2 ^ 53) (h : n + ulp q / 2 < q) : (n : ℚ) < toDouble q := by
  obtain ⟨m, hm⟩ := div_ulp_int hlt n
  have hgap : (m : ℚ) + 1 / 2 < q / ulp q := by
    rw [← hm, lt_div_iff₀ (ulp_pos q), add_mul, div_mul_cancel₀ _ (ulp_pos q).ne']
    linarith
  calc
    (n : ℚ) = m * ulp q := by rw [← hm, div_mul_cancel₀ _ (ulp_pos q).ne']
    _ < toDouble q := mul_lt_mul_of_pos_right (by exact_mod_cast lt_nearestInt hgap) (ulp_pos q)

theorem half_ulp_lt {d : ℚ} (hx : 0 < x) (hlt : x < 2 ^ 53) (hd : 0 < d) : ulp (x / d) / 2 < 1 / d := by
  have hq : 0 < x / d := div_pos hx hd
  have hlog : (2 : ℚ) ^ Int.log 2 (x / d) ≤ x / d := by exact_mod_cast Int.zpow_log_le_self one_lt_two hq
  have hbound : ulp (x / d) / 2 * 2 ^ 53 < 1 / d * 2 ^ 53 := by
    calc
      ulp (x / d) / 2 * 2 ^ 53 = 2 ^ Int.log 2 (x / d) := by rw [two_pow_log hq]; ring
      _ ≤ x / d := hlog
      _ < 2 ^ 53 / d := div_lt_div_of_pos_right hlt hd
      _ = 1 / d * 2 ^ 53 := by ring
  exact lt_of_mul_lt_mul_right hbound (by positivity)

theorem ceil_toDouble_div {x : ℤ} {d : ℕ} (h0 : 0 < x) (hlt : x < 2 ^ 53) (hd : 0 < d) :
    ⌈toDouble (x / d)⌉ = ⌈(x / d : ℚ)⌉ := by
  have hx : (0 : ℚ) < x := by exact_mod_cast h0
  have hx53 : (x : ℚ) < 2 ^ 53 := by exact_mod_cast hlt
  have hd0 : (0 : ℚ) < d := by exact_mod_cast hd
  have hd1 : (1 : ℚ) ≤ d := by exact_mod_cast hd
  have hsmall : |(x / d : ℚ)| < 2 ^ 53 := by
    rw [abs_of_pos (div_pos hx hd0)]
    exact lt_of_le_of_lt (div_le_self hx.le hd1) hx53
  obtain ⟨c, hc⟩ : ∃ c, ⌈(x / d : ℚ)⌉ = c := ⟨_, rfl⟩
  obtain ⟨hlow, hhigh⟩ := Int.ceil_eq_iff.mp hc
  have hnumer : (c - 1) * d + 1 ≤ x := by
    rw [lt_div_iff₀ hd0] at hlow
    exact_mod_cast hlow
  have hgap : ((c - 1 : ℤ) : ℚ) + 1 / d ≤ x / d := by
    rw [le_div_iff₀ hd0, add_mul, div_mul_cancel₀ _ hd0.ne']
    exact_mod_cast hnumer
  have hstep := half_ulp_lt hx hx53 hd0
  have hlower := lt_toDouble hsmall (show ((c - 1 : ℤ) : ℚ) + ulp (x / d) / 2 < x / d by linarith)
  rw [hc]
  refine Int.ceil_eq_iff.mpr ⟨?_, toDouble_le hsmall hhigh⟩
  push_cast at hlower
  exact hlower

end Whippet.Lib
