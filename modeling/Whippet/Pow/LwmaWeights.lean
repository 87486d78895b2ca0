import Whippet.Pow.Lwma

/-! The direction of the weights of LWMA. The loop walks from the tip down while its weight grows, so that the oldest
block of the window has the largest weight. -/
namespace Whippet.Pow
open Lib Primitives Consensus ArithUint256

def BlockWork.later (d : ℕ) (block : BlockWork) : BlockWork := { block with nTime := block.nTime + .ofNat d }

/-- A chain in which block `p`, counted from the tip, takes `d` seconds longer: it and what follows it come later. -/
def delay (d p : ℕ) (chain : List BlockWork) : List BlockWork :=
  (chain.take (p + 1)).map (BlockWork.later d) ++ chain.drop (p + 1)

/-- No solve time of the window is clamped. -/
def Unclamped (T : ℤ) (n : ℕ) (chain : List BlockWork) : Prop :=
  (chain.take (n + 1)).IsChain fun block pprev =>
    -6 * T ≤ block.getBlockTime - pprev.getBlockTime ∧ block.getBlockTime - pprev.getBlockTime ≤ 6 * T

/-- The next target before the limit and the compact form. -/
def nextTarget? (params : PowParams) (chain : List BlockWork) : Option ArithUint256 :=
  (lwmaSums params chain).map lwmaNextTarget

/-- The weight that the loop gives to the solve time of block `p`. -/
def lwmaWeight? (params : PowParams) (chain : List BlockWork) (p : ℕ) : Option ℤ :=
  (lwmaTerms params.nPowTargetSpacing params.difficultyAdjustmentInterval.toNat 0 chain)[p]?.map Prod.snd

/-- A full window of equal targets, two positions in it, and a delay that hits no clamp at either. -/
structure DelayPair (params : PowParams) (chain : List BlockWork) where
  recent : ℕ
  older : ℕ
  d : ℕ
  spacing_pos : 0 < params.nPowTargetSpacing
  divisor_lt : lwmaK params * params.difficultyAdjustmentInterval < 2 ^ 64
  full : params.difficultyAdjustmentInterval < chain.length
  recent_le : recent ≤ older
  older_lt : older < params.difficultyAdjustmentInterval
  time_lt : ∀ block ∈ chain, block.nTime.toNat + d < 2 ^ 32
  target : ℕ
  targets_eq : ∀ t ∈ lwmaTargets params.difficultyAdjustmentInterval.toNat chain, t = target
  recent_unclamped :
    Unclamped params.nPowTargetSpacing params.difficultyAdjustmentInterval.toNat (delay d recent chain)
  older_unclamped :
    Unclamped params.nPowTargetSpacing params.difficultyAdjustmentInterval.toNat (delay d older chain)

/-- A delay of the more recent block eases the next target at least as much, and the weights run from `N` at the tip to
one at the oldest block. -/
def RecentWeighsMost {params : PowParams} {chain : List BlockWork} (s : DelayPair params chain) : Prop :=
  (∃ a b, nextTarget? params (delay s.d s.recent chain) = some a ∧ nextTarget? params (delay s.d s.older chain) = some b ∧
    b ≤ a) ∧
  lwmaWeight? params chain 0 = some params.difficultyAdjustmentInterval ∧
  lwmaWeight? params chain (params.difficultyAdjustmentInterval.toNat - 1) = some 1

theorem length_delay (d p : ℕ) (chain : List BlockWork) : (delay d p chain).length = chain.length := by
  rw [delay, List.length_append, List.length_map, ← List.length_append, List.take_append_drop]

variable {chain : List BlockWork}

theorem lwmaTerms_weights (T : ℤ) {n : ℕ} {j : ℤ} (hn : n < chain.length) :
    (lwmaTerms T n j chain).map Prod.snd = (List.range n).map fun i : ℕ => j + 1 + i := by
  induction n generalizing j chain with
  | zero => rfl
  | succ n ih =>
    match chain, hn with
    | block :: pprev :: chain, hn =>
      rw [lwmaTerms, List.map_cons, ih (Nat.lt_of_succ_lt_succ hn), List.range_succ_eq_map, List.map_cons, List.map_map]
      congr 1
      · simp
      · refine List.map_congr_left fun i _ => ?_
        simp only [Function.comp_apply]
        push_cast
        ring

variable {params : PowParams}

theorem lwmaWeight?_eq (hfull : params.difficultyAdjustmentInterval < chain.length) {p : ℕ}
    (hp : p < params.difficultyAdjustmentInterval) : lwmaWeight? params chain p = some (p + 1 : ℤ) := by
  rw [lwmaWeight?, ← List.getElem?_map, lwmaTerms_weights _ (by omega), List.getElem?_map,
    List.getElem?_range (by omega)]
  simp [add_comm]

theorem nextTarget?_isSome (chain : List BlockWork)
    (hpos : 0 < lwmaK params * params.difficultyAdjustmentInterval)
    (hlt : lwmaK params * params.difficultyAdjustmentInterval < 2 ^ 64) (hN : 0 < params.difficultyAdjustmentInterval)
    (hfull : params.difficultyAdjustmentInterval < chain.length) : ∃ a, nextTarget? params chain = some a := by
  have hdiv := toNat_ofInt64 hpos.le hlt
  have hn : params.difficultyAdjustmentInterval.toNat < chain.length := by omega
  have hdpos : 0 < (ofInt64 (lwmaK params * params.difficultyAdjustmentInterval)).toNat := by omega
  obtain ⟨sums, hsums, -⟩ := lwmaLoop_spec params.nPowTargetSpacing hdpos hn ⟨0, 0, 0⟩
  exact ⟨lwmaNextTarget sums, by rw [nextTarget?, lwmaSums, hsums]; rfl⟩

/-- The weights run the right way in a window of one block only. -/
theorem recentWeighsMost_iff {params : PowParams} {chain : List BlockWork} (s : DelayPair params chain) :
    RecentWeighsMost s ↔ params.difficultyAdjustmentInterval = 1 := by
  have hlt := s.older_lt
  have hle := s.recent_le
  constructor
  · rintro ⟨-, htip, -⟩
    rw [lwmaWeight?_eq s.full (by omega)] at htip
    simpa using (Option.some.inj htip).symm
  · intro hone
    have hk : 0 < lwmaK params := by
      have htwo := two_mul_lwmaK params
      have hspacing := s.spacing_pos
      rw [hone] at htwo
      omega
    obtain ⟨a, ha⟩ := nextTarget?_isSome (delay s.d s.recent chain) (by rw [hone]; omega) s.divisor_lt (by omega)
      (by rw [length_delay]; exact s.full)
    have holder : s.older = s.recent := by omega
    refine ⟨⟨a, a, ha, holder ▸ ha, BitVec.le_refl a⟩, ?_, ?_⟩
    · rw [lwmaWeight?_eq s.full (by omega), hone]
      rfl
    · rw [hone, lwmaWeight?_eq s.full (by omega)]
      rfl

section
variable {T : ℤ} {d : ℕ}

theorem lwmaSolveTime_of_unclamped {block pprev : BlockWork}
    (h : -6 * T ≤ block.getBlockTime - pprev.getBlockTime ∧ block.getBlockTime - pprev.getBlockTime ≤ 6 * T) :
    lwmaSolveTime T block pprev = block.getBlockTime - pprev.getBlockTime := by
  simp only [lwmaSolveTime]
  split_ifs <;> omega

theorem getBlockTime_later {block : BlockWork} (h : block.nTime.toNat + d < 2 ^ 32) :
    (block.later d).getBlockTime = block.getBlockTime + d := by
  simp only [BlockWork.later, BlockWork.getBlockTime, UInt32.toNat_add, UInt32.toNat_ofNat']
  omega

/-- The time sum of a window without clamps, from the times alone. -/
def timeSum : ℕ → ℤ → List BlockWork → ℤ
  | n + 1, j, block :: pprev :: chain =>
    (block.getBlockTime - pprev.getBlockTime) * (j + 1) + timeSum n (j + 1) (pprev :: chain)
  | _, _, _ => 0

theorem sum_lwmaTerms_of_unclamped {n : ℕ} {j : ℤ} {chain : List BlockWork} (h : Unclamped T n chain) :
    ((lwmaTerms T n j chain).map fun term => term.1 * term.2).sum = timeSum n j chain := by
  induction n generalizing j chain with
  | zero => simp [lwmaTerms, timeSum]
  | succ n ih =>
    rcases chain with _ | ⟨block, _ | ⟨pprev, chain⟩⟩
    · rfl
    · rfl
    · rw [Unclamped, List.take_succ_cons, List.take_succ_cons, List.isChain_cons_cons] at h
      have hrest : Unclamped T n (pprev :: chain) := h.2
      rw [lwmaTerms, timeSum, List.map_cons, List.sum_cons, lwmaSolveTime_of_unclamped h.1, ih hrest]

theorem timeSum_delay {n p : ℕ} {j : ℤ} {chain : List BlockWork} (hp : p < n) (hn : n < chain.length)
    (htime : ∀ block ∈ chain, block.nTime.toNat + d < 2 ^ 32) :
    timeSum n j (delay d p chain) = timeSum n j chain + (j + p + 1) * d := by
  induction n generalizing p j chain with
  | zero => omega
  | succ n ih =>
    match chain, hn with
    | block :: pprev :: chain, hn =>
      rw [List.forall_mem_cons] at htime
      have hblock := getBlockTime_later htime.1
      cases p with
      | zero =>
        simp only [delay, List.take_succ_cons, List.take_zero, List.map_cons, List.map_nil, List.drop_succ_cons,
          List.drop_zero, List.cons_append, List.nil_append, timeSum, hblock]
        push_cast
        ring
      | succ p =>
        have hrest := ih (j := j + 1) (by omega : p < n) (Nat.lt_of_succ_lt_succ hn) htime.2
        have hpprev := getBlockTime_later (htime.2 pprev List.mem_cons_self)
        simp only [delay, List.take_succ_cons, List.map_cons, List.drop_succ_cons, List.cons_append, timeSum, hblock,
          hpprev] at hrest ⊢
        rw [hrest]
        push_cast
        ring

theorem lwmaTargets_delay (p n : ℕ) (chain : List BlockWork) :
    lwmaTargets n (delay d p chain) = lwmaTargets n chain := by
  have hbits : (delay d p chain).map BlockWork.nBits = chain.map BlockWork.nBits := by
    have hlater : BlockWork.nBits ∘ BlockWork.later d = BlockWork.nBits := rfl
    rw [delay, List.map_append, List.map_map, hlater, ← List.map_append, List.take_append_drop]
  have htake := congrArg (fun bits => (bits.take n).map fun nBits => (setCompact nBits).value.toNat) hbits
  simp only [← List.map_take, List.map_map] at htake
  exact htake

end

theorem lwma_older_weighs_more (h : LwmaSafe params)
    (s : DelayPair params chain) (hrecent : FullWindow params (delay s.d s.recent chain))
    (holder : FullWindow params (delay s.d s.older chain)) (hlt : s.recent < s.older) (hd : 0 < s.d) :
    ∃ a b, nextTarget? params (delay s.d s.recent chain) = some a ∧ nextTarget? params (delay s.d s.older chain) = some b ∧
      a < b := by
  have hN := h.interval_pos
  have hfull := s.full
  have hlt' := s.older_lt
  have hn : params.difficultyAdjustmentInterval.toNat < chain.length := by omega
  obtain ⟨sums, hsums, -, hsum, htime0, htime, htarget⟩ := lwmaSums_spec h hrecent
  obtain ⟨sums', hsums', -, hsum', htime0', htime', htarget'⟩ := lwmaSums_spec h holder
  obtain ⟨-, hnext, hpos⟩ := toNat_lwmaNextTarget h hrecent htime0 htime htarget
  obtain ⟨-, hnext', -⟩ := toNat_lwmaNextTarget h holder htime0' htime' htarget'
  rw [sum_lwmaTerms_of_unclamped s.recent_unclamped, timeSum_delay (by omega) hn s.time_lt] at hsum
  rw [sum_lwmaTerms_of_unclamped s.older_unclamped, timeSum_delay (by omega) hn s.time_lt] at hsum'
  have hshares : sums'.sumTarget.toNat = sums.sumTarget.toNat := by
    rw [htarget, htarget', lwmaTargets_delay, lwmaTargets_delay]
  refine ⟨lwmaNextTarget sums, lwmaNextTarget sums', by rw [nextTarget?, hsums]; rfl, by rw [nextTarget?, hsums']; rfl, ?_⟩
  rw [BitVec.lt_def]
  zify
  rw [hnext, hnext', hshares]
  have hshare : (0 : ℤ) < sums.sumTarget.toNat := by
    have hprod : (0 : ℤ) < sums.sumTarget.toNat * sums.sumTime := by rw [← hnext]; exact_mod_cast hpos
    exact (pos_iff_pos_of_mul_pos hprod).mpr htime0
  refine mul_lt_mul_of_pos_left ?_ hshare
  have hstep : (0 + s.recent + 1 : ℤ) * s.d < (0 + s.older + 1) * s.d :=
    mul_lt_mul_of_pos_right (by omega) (by exact_mod_cast hd)
  omega

def sampleDelay : DelayPair MainPow.auxpowConsensus (sampleTip :: sampleAncestors) where
  recent := 0
  older := 9
  d := 10
  spacing_pos := by decide
  divisor_lt := by decide +kernel
  full := by decide +kernel
  recent_le := by decide
  older_lt := by decide
  time_lt := by decide +kernel
  target := 0x0fffff * 2 ^ 216
  targets_eq := by decide +kernel
  recent_unclamped := by unfold Unclamped; decide +kernel
  older_unclamped := by unfold Unclamped; decide +kernel

theorem recentWeighsMost_fails : ¬ RecentWeighsMost sampleDelay ∧
    ∃ a b, nextTarget? MainPow.auxpowConsensus (delay 10 0 (sampleTip :: sampleAncestors)) = some a ∧
      nextTarget? MainPow.auxpowConsensus (delay 10 9 (sampleTip :: sampleAncestors)) = some b ∧ a < b := by
  have hlt := lwma_older_weighs_more (lwmaSafe_main (by decide +kernel)) sampleDelay
    ⟨by decide +kernel, by unfold Spaced; decide +kernel, by decide +kernel⟩
    ⟨by decide +kernel, by unfold Spaced; decide +kernel, by decide +kernel⟩ (by decide) (by decide)
  refine ⟨fun ⟨⟨a, b, ha, hb, hle⟩, _⟩ => ?_, hlt⟩
  obtain ⟨a', b', ha', hb', hlt⟩ := hlt
  rw [ha] at ha'
  rw [hb] at hb'
  cases ha'
  cases hb'
  exact BitVec.not_lt.mpr hle hlt

end Whippet.Pow
