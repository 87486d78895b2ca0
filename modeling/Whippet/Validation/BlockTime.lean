import Whippet.Lib.Median
import Whippet.Validation.ConnectBlock

/-! The time of a block: the rules of `ContextualCheckBlockHeader` and the time that `CreateNewBlock` puts into a
template. -/
namespace Whippet.Validation
open Lib Primitives Consensus

def tipTime (chain : List CBlockIndex) : ℤ := (chain.getLast?.map fun index => (index.nTime.toNat : ℤ)).getD 0

/-- The time rules of `ContextualCheckBlockHeader`, for a block on top of the chain. -/
def checkBlockTime (params : Params) (chain : List CBlockIndex) (nTime : UInt32) (nAdjustedTime : ℤ) :
    Except Reject Unit := do
  let nBlockTime : ℤ := nTime.toNat
  failIf (nBlockTime ≤ getMedianTimePast chain) { nDoS := 0, code := .invalid, reason := "time-too-old" }
  failIf (params.nMinBlockSpacing > 0 ∧ nBlockTime < tipTime chain + params.nMinBlockSpacing)
    { nDoS := 100, code := .invalid, reason := "bad-time-too-early" }
  failIf (nBlockTime > nAdjustedTime + 2 * 60 * 60) { nDoS := 0, code := .invalid, reason := "time-too-new" }

/-- `UpdateTime`: the header and by how much its time was behind. The difficulty it may set again is set by its
caller in any case. -/
def updateTime (chain : List CBlockIndex) (nAdjustedTime : ℤ) (header : CBlockHeader) : CBlockHeader × ℤ :=
  let nOldTime : ℤ := header.nTime.toNat
  let nNewTime : ℤ := max (getMedianTimePast chain + 1) nAdjustedTime
  (if nOldTime < nNewTime then { header with nTime := UInt32.ofInt nNewTime } else header, nNewTime - nOldTime)

/-- What `CreateNewBlock` does about the time of the header. -/
def fillTime (chain : List CBlockIndex) (nAdjustedTime : ℤ) (header : CBlockHeader) : CBlockHeader :=
  (updateTime chain nAdjustedTime { header with nTime := UInt32.ofInt nAdjustedTime }).1

theorem getMedianTimePast_le_iff {chain : List CBlockIndex} (hne : chain ≠ []) (t : ℕ) :
    getMedianTimePast chain ≤ t ↔
      (chain.reverse.take 11).length / 2 <
        ((chain.reverse.take 11).map fun index => index.nTime.toNat).countP (· ≤ t) := by
  have hpos : 0 < (chain.reverse.take 11).length := by
    have := List.length_pos_iff.mpr hne
    rw [List.length_take, List.length_reverse]
    omega
  simp only [getMedianTimePast, List.length_insertionSort]
  rw [getD_insertionSort_le_iff (by rw [List.length_map]; omega), List.length_map]

theorem getMedianTimePast_le_tip {before : List CBlockIndex} {tip : CBlockIndex}
    (h : before ≠ [] → getMedianTimePast before < tip.nTime.toNat) :
    getMedianTimePast (before ++ [tip]) ≤ tip.nTime.toNat := by
  rw [getMedianTimePast_le_iff (by simp), List.reverse_append, List.reverse_singleton, List.singleton_append,
    List.take_succ_cons, List.map_cons, List.countP_cons_of_pos (by simp), List.length_cons]
  by_cases hne : before = []
  · simp [hne]
  · have hcount := (getMedianTimePast_le_iff hne _).mp (h hne).le
    have hsplit := List.take_add_one (l := before.reverse) (i := 10)
    have hlast : (before.reverse[10]?.toList.map fun index => index.nTime.toNat).countP (· ≤ tip.nTime.toNat) ≤
        before.reverse[10]?.toList.length := le_trans List.countP_le_length (List.length_map _).le
    have hlen := congrArg List.length hsplit
    rw [hsplit, List.map_append, List.countP_append] at hcount
    simp only [List.length_append, List.length_take, List.length_reverse] at hcount hlen ⊢
    omega

theorem toNat_ofInt_of_lt {n : ℤ} (h0 : 0 ≤ n) (h : n < 2 ^ 32) : ((UInt32.ofInt n).toNat : ℤ) = n := by
  rw [UInt32.ofInt, UInt32.toNat_ofNat']
  omega

theorem fillTime_nTime {chain : List CBlockIndex} {nAdjustedTime : ℤ} (h0 : 0 ≤ nAdjustedTime)
    (hclock : nAdjustedTime < 2 ^ 32) (hmedian : getMedianTimePast chain + 1 < 2 ^ 32) (header : CBlockHeader) :
    ((fillTime chain nAdjustedTime header).nTime.toNat : ℤ) = max ((getMedianTimePast chain : ℤ) + 1) nAdjustedTime := by
  have hold := toNat_ofInt_of_lt h0 hclock
  have hnew : ((UInt32.ofInt (max ((getMedianTimePast chain : ℤ) + 1) nAdjustedTime)).toNat : ℤ) =
      max ((getMedianTimePast chain : ℤ) + 1) nAdjustedTime := by
    apply toNat_ofInt_of_lt
    · exact le_trans h0 (le_max_right _ _)
    · exact max_lt (by omega) hclock
  simp only [fillTime, updateTime, hold]
  split_ifs with hbehind
  · exact hnew
  · rw [hold]
    exact (max_eq_right (le_trans (le_max_left _ _) (not_lt.mp hbehind))).symm

theorem checkBlockTime_eq_ok {params : Params} {chain : List CBlockIndex} {nTime : UInt32} {nAdjustedTime : ℤ} :
    checkBlockTime params chain nTime nAdjustedTime = .ok () ↔
      (getMedianTimePast chain : ℤ) < nTime.toNat ∧
      (0 < params.nMinBlockSpacing → tipTime chain + params.nMinBlockSpacing ≤ nTime.toNat) ∧
      (nTime.toNat : ℤ) ≤ nAdjustedTime + 7200 := by
  simp only [checkBlockTime, bind_eq_ok, failIf_eq_ok, exists_const]
  constructor
  · rintro ⟨hold, hearly, hnew⟩
    refine ⟨by omega, ?_, by omega⟩
    intro hpos
    by_contra hlt
    exact hearly ⟨hpos, by omega⟩
  · rintro ⟨hold, hearly, hnew⟩
    refine ⟨by omega, ?_, by omega⟩
    rintro ⟨hpos, hlt⟩
    have := hearly hpos
    omega

/-- The tip passed the time rules on its own ancestors, under some clock. -/
def TipTimeOk (params : CChainParams) (before : List CBlockIndex) (tip : CBlockIndex) : Prop :=
  before ≠ [] → ∃ nClock, checkBlockTime (params.getConsensus before.length) before tip.nTime nClock = .ok ()

/-- A template keeps the time rules exactly when the clock, or the median time past, is the minimum spacing after the
tip, and the median time past is not two hours ahead of the clock. With a positive spacing only the spacing rule can
fail. The clock and the median are times that a header can hold. -/
theorem template_time_valid_iff (params : CChainParams) (before : List CBlockIndex) (tip : CBlockIndex)
    (header : CBlockHeader) (nAdjustedTime : ℤ) (htip : TipTimeOk params before tip)
    (hahead : tip.nTime.toNat ≤ nAdjustedTime + 7200 - (params.getConsensus (before.length + 1)).nMinBlockSpacing)
    (h0 : 0 ≤ nAdjustedTime) (hclock : nAdjustedTime < 2 ^ 32) (hmedian : getMedianTimePast (before ++ [tip]) + 1 < 2 ^ 32) :
    let consensus := params.getConsensus (before.length + 1)
    let nTime := (fillTime (before ++ [tip]) nAdjustedTime header).nTime
    let latest := max ((getMedianTimePast (before ++ [tip]) : ℤ) + 1) nAdjustedTime
    (checkBlockTime consensus (before ++ [tip]) nTime nAdjustedTime = .ok () ↔
      (0 < consensus.nMinBlockSpacing → tip.nTime.toNat + consensus.nMinBlockSpacing ≤ latest) ∧
      (getMedianTimePast (before ++ [tip]) : ℤ) < nAdjustedTime + 7200) ∧
    (0 < consensus.nMinBlockSpacing → (getMedianTimePast (before ++ [tip]) : ℤ) < nAdjustedTime + 7200 ∧
      ∀ e, checkBlockTime consensus (before ++ [tip]) nTime nAdjustedTime = .error e → e.reason = "bad-time-too-early") := by
  intro consensus nTime latest
  have hfilled : (nTime.toNat : ℤ) = latest := fillTime_nTime h0 hclock hmedian header
  have hlast : tipTime (before ++ [tip]) = tip.nTime.toNat := by simp [tipTime]
  have hle : getMedianTimePast (before ++ [tip]) ≤ tip.nTime.toNat := by
    apply getMedianTimePast_le_tip
    intro hne
    obtain ⟨nClock, hok⟩ := htip hne
    have := (checkBlockTime_eq_ok.mp hok).1
    omega
  have hlater : (getMedianTimePast (before ++ [tip]) : ℤ) < latest :=
    lt_of_lt_of_le (by omega) (le_max_left _ _)
  have hahead' : latest ≤ nAdjustedTime + 7200 ↔ (getMedianTimePast (before ++ [tip]) : ℤ) < nAdjustedTime + 7200 := by
    rw [max_le_iff]
    omega
  refine ⟨?_, ?_⟩
  · rw [checkBlockTime_eq_ok, hfilled, hlast, hahead']
    exact ⟨fun h => h.2, fun h => ⟨hlater, h⟩⟩
  · intro hpos
    have hspacing : 0 < (params.getConsensus (before.length + 1)).nMinBlockSpacing := hpos
    have hfuture : (getMedianTimePast (before ++ [tip]) : ℤ) < nAdjustedTime + 7200 := by omega
    refine ⟨hfuture, ?_⟩
    intro e he
    have hold : ¬ (nTime.toNat : ℤ) ≤ getMedianTimePast (before ++ [tip]) := by omega
    have hnew : ¬ (nTime.toNat : ℤ) > nAdjustedTime + 2 * 60 * 60 := by
      have := hahead'.mpr hfuture
      omega
    simp only [checkBlockTime, failIf_neg hold, failIf_neg hnew, ok_bind] at he
    unfold failIf at he
    split_ifs at he
    · cases he
      rfl
    · cases he

def sampleTimes : List CBlockIndex × CBlockIndex :=
  ([⟨Uint256.zero, 1, 1700000000⟩], ⟨Uint256.one, 1, 1700001000⟩)

theorem sampleTimes_ok : TipTimeOk mainParams sampleTimes.1 sampleTimes.2 := fun _ => ⟨1700001000, by decide +kernel⟩

def sampleHeader : CBlockHeader := ⟨1, Uint256.one, Uint256.zero, 0, 0, 0, []⟩

/-- Six seconds after the tip a template keeps the time rules. -/
theorem template_time_valid_later :
    checkBlockTime (mainParams.getConsensus (sampleTimes.1.length + 1)) (sampleTimes.1 ++ [sampleTimes.2])
      (fillTime (sampleTimes.1 ++ [sampleTimes.2]) 1700001006 sampleHeader).nTime 1700001006 = .ok () :=
  (template_time_valid_iff mainParams sampleTimes.1 sampleTimes.2 sampleHeader 1700001006 sampleTimes_ok
    (by decide +kernel) (by decide) (by decide) (by decide +kernel)).1.mpr ⟨by decide +kernel, by decide +kernel⟩

/-- Three seconds after the tip `CreateNewBlock` fails for a time reason. -/
theorem template_time_too_early :
    TipTimeOk mainParams sampleTimes.1 sampleTimes.2 ∧
      (sampleTimes.2.nTime.toNat : ℤ) ≤ 1700001003 + 7200 - (mainParams.getConsensus 2).nMinBlockSpacing ∧
      checkBlockTime (mainParams.getConsensus 2) (sampleTimes.1 ++ [sampleTimes.2])
        (fillTime (sampleTimes.1 ++ [sampleTimes.2]) 1700001003 sampleHeader).nTime 1700001003 =
          .error { nDoS := 100, code := .invalid, reason := "bad-time-too-early" } :=
  ⟨sampleTimes_ok, by decide +kernel, by decide +kernel⟩

/-- Blocks that were added to a chain one after the other, each by the time rules. -/
def TimesOk (params : CChainParams) : List CBlockIndex → List CBlockIndex → Prop
  | _, [] => True
  | chain, block :: later => TipTimeOk params chain block ∧ TimesOk params (chain ++ [block]) later

theorem getMedianTimePast_mono {before : List CBlockIndex} {tip : CBlockIndex} (hne : before ≠ [])
    (h : getMedianTimePast before < tip.nTime.toNat) : getMedianTimePast before ≤ getMedianTimePast (before ++ [tip]) := by
  by_contra hlt
  -- the new block is after the median, so below it there is one block less in the window, or as many
  obtain ⟨t, ht⟩ : ∃ t, getMedianTimePast before = t + 1 := ⟨_, (Nat.succ_pred (by omega)).symm⟩
  have hcount := (@getMedianTimePast_le_iff (before ++ [tip]) (by simp) t).mp (by omega)
  have hfew := mt (getMedianTimePast_le_iff hne t).mpr (by omega)
  rw [List.reverse_append, List.reverse_singleton, List.singleton_append, List.take_succ_cons, List.map_cons,
    List.countP_cons_of_neg (by simp; omega)] at hcount
  have hsub : (before.reverse.take 10).Sublist (before.reverse.take 11) := (List.take_prefix_take_left (by decide)).sublist
  have hle := (hsub.map fun index => index.nTime.toNat).countP_le (p := (· ≤ t))
  simp only [List.length_cons, List.length_take, List.length_reverse] at hcount hfew
  omega

theorem getMedianTimePast_append {params : CChainParams} {chain later : List CBlockIndex} (hne : chain ≠ [])
    (h : TimesOk params chain later) : getMedianTimePast chain ≤ getMedianTimePast (chain ++ later) := by
  induction later generalizing chain with
  | nil => rw [List.append_nil]
  | cons block later ih =>
    obtain ⟨nClock, hok⟩ := h.1 hne
    have hlater := (checkBlockTime_eq_ok.mp hok).1
    rw [List.append_cons]
    exact (getMedianTimePast_mono hne (by omega)).trans (ih (by simp) h.2)

theorem calculateSequenceLocks_append {chain : List CBlockIndex} {prevHeights : List ℕ} (hne : chain ≠ [])
    (hheights : ∀ nHeight ∈ prevHeights, nHeight ≤ chain.length) (tx : CTransaction) (fVerifySequence : Bool)
    (later : List CBlockIndex) : calculateSequenceLocks tx fVerifySequence prevHeights (chain ++ later) =
      calculateSequenceLocks tx fVerifySequence prevHeights chain := by
  unfold calculateSequenceLocks
  split_ifs
  · refine List.foldl_ext _ _ _ ?_
    intro lock input hmem
    have hheight := hheights _ (List.of_mem_zip hmem).2
    have hlength := List.length_pos_iff.mpr hne
    unfold sequenceLock
    dsimp only
    rw [List.take_append_of_le_length (by omega)]
  · rfl

/-- Whatever is added to a chain by the time rules, its median time past does not go back, and a transaction that was
final and past its relative locks on top of it stays so. -/
theorem locks_stay_open (params : CChainParams) (chain later : List CBlockIndex) (tx : CTransaction)
    (fVerifySequence : Bool) (prevHeights : List ℕ) (hne : chain ≠ []) (htimes : TimesOk params chain later)
    (hheights : ∀ nHeight ∈ prevHeights, nHeight ≤ chain.length) :
    getMedianTimePast chain ≤ getMedianTimePast (chain ++ later) ∧
      (isFinalTx tx chain.length (getMedianTimePast chain) = true →
        isFinalTx tx (chain ++ later).length (getMedianTimePast (chain ++ later)) = true) ∧
      (sequenceLocks tx fVerifySequence prevHeights chain = true →
        sequenceLocks tx fVerifySequence prevHeights (chain ++ later) = true) := by
  have hmedian := getMedianTimePast_append hne htimes
  have hlength : chain.length ≤ (chain ++ later).length := by simp
  refine ⟨hmedian, ?_, ?_⟩
  · simp only [isFinalTx, decide_eq_true_eq]
    rintro (hzero | hpast | hfinal)
    · exact Or.inl hzero
    · refine Or.inr (Or.inl (hpast.trans_le ?_))
      split_ifs
      · exact hlength
      · exact hmedian
    · exact Or.inr (Or.inr hfinal)
  · simp only [sequenceLocks, calculateSequenceLocks_append hne hheights, decide_eq_true_eq]
    rintro hopen (hheight | htime)
    · exact hopen (Or.inl (by omega))
    · exact hopen (Or.inr (by omega))

def sampleLocked : CTransaction := ⟨2, [⟨⟨Uint256.one, 0⟩, [], 0, []⟩], [], 0⟩

theorem locks_stay_open_sample : sequenceLocks sampleLocked true [1] sampleTimes.1 = true ∧
    sequenceLocks sampleLocked true [1] (sampleTimes.1 ++ [sampleTimes.2]) = true := by
  have hopen : sequenceLocks sampleLocked true [1] sampleTimes.1 = true := by decide +kernel
  exact ⟨hopen, (locks_stay_open mainParams sampleTimes.1 [sampleTimes.2] sampleLocked true [1] (by decide)
    ⟨sampleTimes_ok, trivial⟩ (by decide)).2.2 hopen⟩

end Whippet.Validation
