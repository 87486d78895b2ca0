import Mathlib.Algebra.Order.BigOperators.Group.List
import Mathlib.Tactic.Linarith
import Mathlib.Tactic.FieldSimp
import Whippet.Pow.Retarget

/-! The LWMA retarget computes what its formula says: nothing wraps, and truncation costs less than one unit a block. -/
namespace Whippet.Pow
open Lib Primitives Consensus ArithUint256

/-- The solve times of the `n` newest blocks with the weights that the loop gives them. -/
def lwmaTerms (T : ℤ) : ℕ → ℤ → List BlockWork → List (ℤ × ℤ)
  | n + 1, j, block :: pprev :: chain => (lwmaSolveTime T block pprev, j + 1) :: lwmaTerms T n (j + 1) (pprev :: chain)
  | _, _, _ => []

def lwmaTargets (n : ℕ) (chain : List BlockWork) : List ℕ :=
  (chain.take n).map fun block => (setCompact block.nBits).value.toNat

theorem lwmaLoop_spec (T : ℤ) {divisor : ℤ} (hdiv : 0 < (ofInt64 divisor).toNat) {n : ℕ} {chain : List BlockWork}
    (hn : n < chain.length) (sums : LwmaSums) :
    ∃ total, lwmaLoop T divisor n chain sums = some total ∧
      total.sumTarget.toNat =
        (sums.sumTarget.toNat + ((lwmaTargets n chain).map (· / (ofInt64 divisor).toNat)).sum) % 2 ^ 256 ∧
      total.sumTime = sums.sumTime + ((lwmaTerms T n sums.j chain).map fun term => term.1 * term.2).sum ∧
      total.j = sums.j + n := by
  induction n generalizing chain sums with
  | zero => exact ⟨sums, by simp [lwmaLoop], by simp [lwmaTargets, Nat.mod_eq_of_lt sums.sumTarget.isLt],
      by simp [lwmaTerms], by simp⟩
  | succ n ih =>
    match chain, hn with
    | block :: pprev :: chain, hn =>
      obtain ⟨share, hshare, hquot⟩ := div?_eq_some (setCompact block.nBits).value hdiv
      have hn' : n < (pprev :: chain).length := Nat.lt_of_succ_lt_succ hn
      obtain ⟨total, htotal, htarget, htime, hj⟩ := ih hn'
        ⟨sums.sumTarget + share, sums.sumTime + lwmaSolveTime T block pprev * (sums.j + 1), sums.j + 1⟩
      refine ⟨total, ?_, ?_, ?_, ?_⟩
      · simp only [lwmaLoop, hshare, Option.bind_eq_bind, Option.bind_some, htotal]
      · rw [htarget]
        simp only [lwmaTargets, List.take_succ_cons, List.map_cons, List.sum_cons, BitVec.toNat_add, hquot,
          Nat.mod_add_mod, Nat.add_assoc]
      · rw [htime]
        simp only [lwmaTerms, List.map_cons, List.sum_cons]
        ring
      · rw [hj]
        push_cast
        ring

theorem sum_div_bounds {d : ℕ} (hd : 0 < d) (ts : List ℕ) :
    (ts.map (· / d)).sum * d ≤ ts.sum ∧ ts.sum ≤ (ts.map (· / d)).sum * d + ts.length * (d - 1) := by
  induction ts with
  | nil => simp
  | cons t ts ih =>
    have hmod := Nat.div_add_mod t d
    have hlt := Nat.mod_lt t hd
    simp only [List.map_cons, List.sum_cons, List.length_cons, Nat.add_mul, Nat.mul_comm (t / d)]
    omega

theorem mul_sum_div_bounds {shares total d n time : ℚ} (hd : 0 < d) (htime : 0 < time) (hlow : shares * d ≤ total)
    (hhigh : total < shares * d + n * d) :
    shares * time ≤ total * time / d ∧ total * time / d - shares * time < n * time := by
  rw [le_div_iff₀ hd, sub_lt_iff_lt_add, div_lt_iff₀ hd]
  constructor
  · calc shares * time * d = shares * d * time := by ring
      _ ≤ total * time := mul_le_mul_of_nonneg_right hlow htime.le
  · calc total * time < (shares * d + n * d) * time := mul_lt_mul_of_pos_right hhigh htime
      _ = (n * time + shares * time) * d := by ring

/-- A chain whose times grow by `spacing` at least from each of its `n` newest blocks to the next. -/
def Spaced (spacing : ℤ) (n : ℕ) (chain : List BlockWork) : Prop :=
  (chain.take (n + 1)).IsChain fun block pprev => pprev.getBlockTime + spacing ≤ block.getBlockTime

theorem lwmaSolveTime_bounds {T : ℤ} (hT : 0 < T) {block pprev : BlockWork}
    (h : pprev.getBlockTime < block.getBlockTime) :
    0 < lwmaSolveTime T block pprev ∧ lwmaSolveTime T block pprev ≤ 6 * T := by
  simp only [lwmaSolveTime]
  split_ifs <;> omega

/-- The weighted sum of solve times that are positive and at most `6 T`, doubled: the weights are `j + 1` to `j + n`. -/
theorem sum_lwmaTerms_bounds {T spacing : ℤ} (hT : 0 < T) (hspacing : 0 < spacing) {n : ℕ} {j : ℤ} (hj : 0 ≤ j)
    {chain : List BlockWork} (hn : n < chain.length) (h : Spaced spacing n chain) :
    n ≤ ((lwmaTerms T n j chain).map fun term => term.1 * term.2).sum ∧
      2 * ((lwmaTerms T n j chain).map fun term => term.1 * term.2).sum ≤ 6 * T * (n * (2 * j + n + 1)) := by
  induction n generalizing j chain with
  | zero => simp [lwmaTerms]
  | succ n ih =>
    match chain, hn with
    | block :: pprev :: chain, hn =>
      rw [Spaced, List.take_succ_cons, List.take_succ_cons, List.isChain_cons_cons] at h
      have hlater : pprev.getBlockTime < block.getBlockTime := by omega
      obtain ⟨hlow, hhigh⟩ := lwmaSolveTime_bounds hT hlater
      obtain ⟨hlow', hhigh'⟩ := ih (by omega : 0 ≤ j + 1) (Nat.lt_of_succ_lt_succ hn) h.2
      simp only [lwmaTerms, List.map_cons, List.sum_cons]
      push_cast
      constructor
      · nlinarith
      · nlinarith

/-- Parameters under which the arithmetic of LWMA has room. -/
structure LwmaSafe (params : PowParams) : Prop where
  lwma : params.fLWMADifficultyCalculation = true
  spacing_pos : 0 < params.nPowTargetSpacing
  interval_pos : 0 < params.difficultyAdjustmentInterval
  minSpacing_pos : 0 < params.nMinBlockSpacing
  time_lt : 6 * lwmaK params < 2 ^ 32
  divisor_lt : lwmaK params * params.difficultyAdjustmentInterval < 2 ^ 64
  limit_pos : 0 < (uintToArith256 params.powLimit).toNat
  limit_lt : (uintToArith256 params.powLimit).toNat < 2 ^ 240

theorem lwmaSafe_main {params : PowParams} (h : params ∈ MainPow.lwma) : LwmaSafe params := by
  have hall : ∀ params ∈ MainPow.lwma, params.fLWMADifficultyCalculation = true ∧ 0 < params.nPowTargetSpacing ∧
      0 < params.difficultyAdjustmentInterval ∧ 0 < params.nMinBlockSpacing ∧ 6 * lwmaK params < 2 ^ 32 ∧
      lwmaK params * params.difficultyAdjustmentInterval < 2 ^ 64 ∧ 0 < (uintToArith256 params.powLimit).toNat ∧
      (uintToArith256 params.powLimit).toNat < 2 ^ 240 := by decide +kernel
  obtain ⟨h1, h2, h3, h4, h5, h6, h7, h8⟩ := hall params h
  exact ⟨h1, h2, h3, h4, h5, h6, h7, h8⟩

/-- A window of as many blocks as LWMA looks at, each with a predecessor: the times keep the minimum spacing, and the
targets are neither above the limit nor too small to be divided. -/
structure FullWindow (params : PowParams) (chain : List BlockWork) : Prop where
  full : params.difficultyAdjustmentInterval < chain.length
  spaced : Spaced params.nMinBlockSpacing params.difficultyAdjustmentInterval.toNat chain
  targets : ∀ t ∈ lwmaTargets params.difficultyAdjustmentInterval.toNat chain,
    lwmaK params * params.difficultyAdjustmentInterval ≤ t ∧ t ≤ (uintToArith256 params.powLimit).toNat

section
variable {params : PowParams} {chain : List BlockWork}

theorem two_mul_lwmaK (params : PowParams) :
    2 * lwmaK params =
      params.difficultyAdjustmentInterval * (params.difficultyAdjustmentInterval + 1) * params.nPowTargetSpacing := by
  have heven : Even (params.difficultyAdjustmentInterval * (params.difficultyAdjustmentInterval + 1)) :=
    Int.even_mul_succ_self _
  exact Int.mul_tdiv_cancel' (heven.two_dvd.mul_right _)

theorem lwmaK_pos (h : LwmaSafe params) : 0 < lwmaK params := by
  have hk := two_mul_lwmaK params
  have hpos : 0 < params.difficultyAdjustmentInterval * (params.difficultyAdjustmentInterval + 1) *
      params.nPowTargetSpacing :=
    mul_pos (mul_pos h.interval_pos (by linarith [h.interval_pos])) h.spacing_pos
  omega

theorem toNat_ofInt64 {n : ℤ} (h0 : 0 ≤ n) (h1 : n < 2 ^ 64) : (ofInt64 n).toNat = n.toNat := by
  rw [ofInt64, UInt64.ofInt, Int.emod_eq_of_lt h0 h1, BitVec.toNat_ofNat, UInt64.toNat_ofNat']
  omega

theorem toNat_ofInt_of_lt {n : ℤ} (h0 : 0 ≤ n) (h1 : n < 2 ^ 32) : (UInt32.ofInt n).toNat = n.toNat := by
  rw [UInt32.ofInt, Int.emod_eq_of_lt h0 h1, UInt32.toNat_ofNat']
  omega

theorem FullWindow.shares (h : LwmaSafe params) (hwindow : FullWindow params chain) {ts shares : List ℕ} {d : ℕ}
    (hts : ts = lwmaTargets params.difficultyAdjustmentInterval.toNat chain)
    (hd : (d : ℤ) = lwmaK params * params.difficultyAdjustmentInterval) (hshares : shares = ts.map (· / d)) :
    (ts.length : ℤ) = params.difficultyAdjustmentInterval ∧ 0 < shares.sum ∧
      shares.sum * lwmaK params ≤ (uintToArith256 params.powLimit).toNat := by
  have hN := h.interval_pos
  have hfull := hwindow.full
  have hlen : ts.length = params.difficultyAdjustmentInterval.toNat := by
    rw [hts, lwmaTargets, List.length_map, List.length_take]
    omega
  have hdpos : 0 < d := by
    have hpos := mul_pos (lwmaK_pos h) hN
    omega
  have hlow : ts.length ≤ shares.sum := by
    have hone : ∀ share ∈ shares, 1 ≤ share := by
      intro share hmem
      rw [hshares, List.mem_map] at hmem
      obtain ⟨t, ht, rfl⟩ := hmem
      have hdt := (hwindow.targets t (hts ▸ ht)).1
      exact (Nat.one_le_div_iff hdpos).mpr (by omega)
    have hle := List.length_le_sum_of_one_le shares hone
    rwa [hshares, List.length_map, ← hshares] at hle
  have hhigh : ts.sum ≤ ts.length * (uintToArith256 params.powLimit).toNat :=
    List.sum_le_card_nsmul ts _ fun t ht => (hwindow.targets t (hts ▸ ht)).2
  refine ⟨by omega, by omega, ?_⟩
  -- `k N` times the shares is at most the sum of the targets.
  have hsum := (sum_div_bounds hdpos ts).1
  rw [← hshares] at hsum
  have hle : (shares.sum * lwmaK params) * params.difficultyAdjustmentInterval ≤
      (uintToArith256 params.powLimit).toNat * params.difficultyAdjustmentInterval := by
    calc (shares.sum * lwmaK params) * params.difficultyAdjustmentInterval = shares.sum * d := by rw [hd]; ring
      _ ≤ ts.length * (uintToArith256 params.powLimit).toNat := by exact_mod_cast hsum.trans hhigh
      _ = (uintToArith256 params.powLimit).toNat * params.difficultyAdjustmentInterval := by
        rw [hlen, Int.toNat_of_nonneg hN.le, mul_comm]
  exact le_of_mul_le_mul_right hle hN

/-- The sums over a full window: the time sum is positive and at most `6 k`, and adding up the targets wraps nowhere. -/
theorem lwmaSums_spec (h : LwmaSafe params) (hwindow : FullWindow params chain) :
    ∃ sums, lwmaSums params chain = some sums ∧ sums.j = params.difficultyAdjustmentInterval ∧
      sums.sumTime = ((lwmaTerms params.nPowTargetSpacing params.difficultyAdjustmentInterval.toNat 0 chain).map
        fun term => term.1 * term.2).sum ∧
      0 < sums.sumTime ∧ sums.sumTime ≤ 6 * lwmaK params ∧
      sums.sumTarget.toNat = ((lwmaTargets params.difficultyAdjustmentInterval.toNat chain).map
        (· / (lwmaK params * params.difficultyAdjustmentInterval).toNat)).sum := by
  have hN := h.interval_pos
  have hk := lwmaK_pos h
  have hpos := mul_pos hk hN
  have hfull := hwindow.full
  have hn : params.difficultyAdjustmentInterval.toNat < chain.length := by omega
  have hdiv := toNat_ofInt64 hpos.le h.divisor_lt
  have hdpos : 0 < (ofInt64 (lwmaK params * params.difficultyAdjustmentInterval)).toNat := by omega
  obtain ⟨sums, hsums, htarget, htime, hj⟩ := lwmaLoop_spec params.nPowTargetSpacing hdpos hn ⟨0, 0, 0⟩
  obtain ⟨hlow, hhigh⟩ := sum_lwmaTerms_bounds h.spacing_pos h.minSpacing_pos (le_refl 0) hn hwindow.spaced
  simp only [zero_add, hdiv, BitVec.ofNat_eq_ofNat, BitVec.toNat_ofNat, Nat.zero_mod] at htarget htime hj
  refine ⟨sums, hsums, by omega, htime, by omega, ?_, ?_⟩
  · rw [Int.toNat_of_nonneg hN.le] at hhigh
    rw [htime]
    linarith [two_mul_lwmaK params]
  · obtain ⟨-, -, hle⟩ := hwindow.shares h rfl (Int.toNat_of_nonneg hpos.le) rfl
    have hlt := h.limit_lt
    rw [htarget, Nat.mod_eq_of_lt]
    refine lt_of_le_of_lt ?_ (hlt.trans (by norm_num))
    exact_mod_cast (le_mul_of_one_le_right (Int.natCast_nonneg _) hk).trans hle

theorem toNat_lwmaNextTarget (h : LwmaSafe params) (hwindow : FullWindow params chain) {sums : LwmaSums}
    (htime0 : 0 < sums.sumTime) (htime : sums.sumTime ≤ 6 * lwmaK params)
    (htarget : sums.sumTarget.toNat = ((lwmaTargets params.difficultyAdjustmentInterval.toNat chain).map
        (· / (lwmaK params * params.difficultyAdjustmentInterval).toNat)).sum) :
    (UInt32.ofInt sums.sumTime).toNat = sums.sumTime ∧
      ((lwmaNextTarget sums).toNat : ℤ) = sums.sumTarget.toNat * sums.sumTime ∧ 0 < (lwmaNextTarget sums).toNat := by
  have hword := toNat_ofInt_of_lt htime0.le (htime.trans_lt h.time_lt)
  obtain ⟨-, hpos, hle⟩ :=
    hwindow.shares h rfl (Int.toNat_of_nonneg (mul_pos (lwmaK_pos h) h.interval_pos).le) rfl
  rw [← htarget] at hpos hle
  have hlt := h.limit_lt
  have hfit : sums.sumTarget.toNat * (UInt32.ofInt sums.sumTime).toNat < 2 ^ 256 := by
    have hle6 : (sums.sumTarget.toNat * sums.sumTime : ℤ) ≤ 6 * (uintToArith256 params.powLimit).toNat := by
      calc (sums.sumTarget.toNat * sums.sumTime : ℤ) ≤ sums.sumTarget.toNat * (6 * lwmaK params) :=
            mul_le_mul_of_nonneg_left htime (Int.natCast_nonneg _)
        _ = 6 * (sums.sumTarget.toNat * lwmaK params) := by ring
        _ ≤ 6 * (uintToArith256 params.powLimit).toNat := by omega
    rw [hword]
    zify
    rw [Int.toNat_of_nonneg htime0.le]
    omega
  have hnext : (lwmaNextTarget sums).toNat = sums.sumTarget.toNat * (UInt32.ofInt sums.sumTime).toNat := by
    rw [lwmaNextTarget, toNat_mulUInt32, Nat.mod_eq_of_lt hfit]
  refine ⟨by omega, ?_, ?_⟩
  · rw [hnext, hword]
    push_cast
    rw [Int.toNat_of_nonneg htime0.le]
  · rw [hnext, hword]
    exact Nat.mul_pos hpos (by omega)

theorem lwmaNextTarget_bounds (h : LwmaSafe params) (hwindow : FullWindow params chain) {sums : LwmaSums}
    (htime0 : 0 < sums.sumTime)
    (htarget : sums.sumTarget.toNat = ((lwmaTargets params.difficultyAdjustmentInterval.toNat chain).map
        (· / (lwmaK params * params.difficultyAdjustmentInterval).toNat)).sum)
    (hnext : ((lwmaNextTarget sums).toNat : ℤ) = sums.sumTarget.toNat * sums.sumTime) :
    let N := params.difficultyAdjustmentInterval
    let targets := lwmaTargets N.toNat chain
    ((lwmaNextTarget sums).toNat : ℚ) ≤ targets.sum * sums.sumTime / (lwmaK params * N) ∧
      (targets.sum * sums.sumTime / (lwmaK params * N) - (lwmaNextTarget sums).toNat : ℚ) < N * sums.sumTime := by
  intro N targets
  have hN : 0 < N := h.interval_pos
  have hdiv : 0 < lwmaK params * N := mul_pos (lwmaK_pos h) hN
  obtain ⟨d, hd⟩ := Int.eq_ofNat_of_zero_le hdiv.le
  have hdpos : 0 < d := by omega
  have hlen : (targets.length : ℤ) = N := (hwindow.shares h rfl hd.symm rfl).1
  obtain ⟨hlow, hhigh⟩ := sum_div_bounds hdpos targets
  have hshares : sums.sumTarget.toNat = (targets.map (· / d)).sum := by
    rw [htarget, hd, Int.toNat_natCast]
  rw [← hshares] at hlow hhigh
  have hlow' : (sums.sumTarget.toNat * d : ℚ) ≤ targets.sum := by exact_mod_cast hlow
  have hhigh' : (targets.sum : ℚ) < sums.sumTarget.toNat * d + N * d := by
    have hlenq : (targets.length : ℚ) = N := by exact_mod_cast hlen
    have hlt : targets.sum < sums.sumTarget.toNat * d + targets.length * d := by
      refine hhigh.trans_lt (Nat.add_lt_add_left (Nat.mul_lt_mul_of_pos_left (by omega) ?_) _)
      omega
    rw [← hlenq]
    exact_mod_cast hlt
  have hnextq : ((lwmaNextTarget sums).toNat : ℚ) = sums.sumTarget.toNat * sums.sumTime := by exact_mod_cast hnext
  have hdq : (lwmaK params * N : ℚ) = d := by exact_mod_cast hd
  rw [hdq, hnextq]
  exact mul_sum_div_bounds (by exact_mod_cast hdpos) (by exact_mod_cast htime0) hlow' hhigh'

theorem checkProofOfWork_limitTarget (h : LwmaSafe params) {target : ArithUint256} (hpos : 0 < target.toNat) :
    (setCompact (limitTarget params target)).value ≠ 0 ∧
      (setCompact (limitTarget params target)).value ≤ uintToArith256 params.powLimit ∧
      ∀ hash, checkProofOfWork params hash (limitTarget params target) = true ↔
        uintToArith256 hash ≤ (setCompact (limitTarget params target)).value := by
  obtain ⟨limited, hlimited, hpos', hle⟩ : ∃ limited : ArithUint256,
      limitTarget params target = getCompact limited false ∧ 0 < limited.toNat ∧
        limited ≤ uintToArith256 params.powLimit := by
    rw [limitTarget]
    split_ifs with hgt
    · exact ⟨_, rfl, h.limit_pos, BitVec.le_refl _⟩
    · exact ⟨_, rfl, hpos, BitVec.not_lt.mp hgt⟩
  obtain ⟨hvalue, hdecode, hneg, hover⟩ := setCompact_getCompact hpos'
  rw [hlimited]
  have hne : (setCompact (getCompact limited false)).value ≠ 0 := by
    intro hzero
    rw [hzero] at hvalue
    exact absurd hvalue (by decide)
  have hrange : (setCompact (getCompact limited false)).value ≤ uintToArith256 params.powLimit :=
    BitVec.le_trans (BitVec.le_def.mpr hdecode) hle
  refine ⟨hne, hrange, fun hash => ?_⟩
  simpa [checkProofOfWork, hneg, hover, BitVec.not_lt.mpr hrange] using fun _ => hne

def sampleTip : BlockWork := ⟨1800000000, 0x1e0fffff⟩

def sampleAncestors : List BlockWork := (List.range 11).map fun i => ⟨.ofNat (1800000000 - 6 * (i + 1)), 0x1e0fffff⟩

end
end Whippet.Pow
