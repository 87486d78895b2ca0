import Whippet.Lib.Int64
import Whippet.Lib.PrefixSearch
import Whippet.Lib.StableSort
import Whippet.Ports.PaymentSpec

/-! Coin selection of the Go port beside that of the wallet library: when each finds a selection, and that they find the
same one. -/
namespace Whippet.Ports
open Lib Primitives

namespace Uaptx

def coin : Int64 := 100000000

def recommendedMinTxFee : Int64 := coin / 100

structure CandidateInput where
  txid : List Char
  vout : UInt32
  value : Int64
  scriptCode : Bytes
  privKey : Bytes
  pubKey : Bytes
  deriving DecidableEq

def estimateTxSize (nInputs nOutputs : Int64) : Int64 := 10 + nInputs * 150 + nOutputs * 34

structure SelectedCoins where
  selected : List CandidateInput
  totalInput : Int64
  change : Int64
  fee : Int64
  deriving DecidableEq

/-- The fee for a size at a rate in satoshis per kilobyte, rounded up, with the floor. -/
def feeFor (estimatedSize feeRate : Int64) : Int64 :=
  let estimatedFee := (estimatedSize * feeRate + 999) / 1000
  if estimatedFee < recommendedMinTxFee then recommendedMinTxFee else estimatedFee

structure CoinTarget where
  targetAmount : Int64
  changeScriptSize : Int64
  feeRate : Int64
  nOutputs : Int64

def CoinTarget.estimatedFee (target : CoinTarget) (nInputs totalInput : Int64) : Int64 :=
  let estimatedOutputs :=
    if totalInput > target.targetAmount ∧ target.changeScriptSize > 0 then target.nOutputs + 1 else target.nOutputs
  feeFor (estimateTxSize nInputs estimatedOutputs) target.feeRate

def selectLoop (target : CoinTarget) : List CandidateInput → Int64 → List CandidateInput → Except String SelectedCoins
  | _, _, [] => .error "insufficient funds for transaction (cannot select enough UTXOs to cover target + fee)"
  | selected, totalInput, input :: sorted =>
    let selected := selected ++ [input]
    let totalInput := totalInput + input.value
    let estimatedFee := target.estimatedFee (Int64.ofNat selected.length) totalInput
    if totalInput ≥ target.targetAmount + estimatedFee then
      .ok ⟨selected, totalInput, totalInput - target.targetAmount - estimatedFee, estimatedFee⟩
    else selectLoop target selected totalInput sorted

def selectCoins (candidateInputs : List CandidateInput) (target : CoinTarget) : Except String SelectedCoins :=
  selectLoop target [] 0 (swapSort (fun a b => a.value > b.value) candidateInputs)

def totalInput (inputs : List CandidateInput) : Int64 := inputs.foldl (fun total input => total + input.value) 0

/-- The inputs cover the target and the fee for their number, as the loop computes them. -/
def CoinTarget.Covers (target : CoinTarget) (inputs : List CandidateInput) : Prop :=
  totalInput inputs ≥ target.targetAmount + target.estimatedFee (Int64.ofNat inputs.length) (totalInput inputs)

instance (target : CoinTarget) (inputs : List CandidateInput) : Decidable (target.Covers inputs) :=
  inferInstanceAs (Decidable (_ ≤ _))

def CoinTarget.stop? (target : CoinTarget) (inputs : List CandidateInput) : Option SelectedCoins :=
  if target.Covers inputs then
    let fee := target.estimatedFee (Int64.ofNat inputs.length) (totalInput inputs)
    some ⟨inputs, totalInput inputs, totalInput inputs - target.targetAmount - fee, fee⟩
  else none

theorem totalInput_append_singleton (inputs : List CandidateInput) (input : CandidateInput) :
    totalInput (inputs ++ [input]) = totalInput inputs + input.value := by simp [totalInput]

/-- The loop looks for the first run of candidates that covers the target. -/
theorem selectLoop_eq_search (target : CoinTarget) (selected sorted : List CandidateInput) :
    selectLoop target selected (totalInput selected) sorted =
      orFail "insufficient funds for transaction (cannot select enough UTXOs to cover target + fee)"
        (searchPrefix target.stop? selected sorted) := by
  induction sorted generalizing selected with
  | nil => rfl
  | cons input sorted ih =>
    rw [selectLoop, searchPrefix, ← totalInput_append_singleton, CoinTarget.stop?]
    by_cases h : target.Covers (selected ++ [input])
    · rw [if_pos h]
      exact if_pos h
    · rw [if_neg h, Option.none_or, ← ih]
      exact if_neg h

def sortInputs (inputs : List CandidateInput) : List CandidateInput :=
  inputs.insertionSort fun a b => a.value.toInt ≤ b.value.toInt

theorem selectCoins_eq_search (candidateInputs : List CandidateInput) (target : CoinTarget) :
    selectCoins candidateInputs target =
      orFail "insufficient funds for transaction (cannot select enough UTXOs to cover target + fee)"
        (searchPrefix target.stop? [] (sortInputs candidateInputs)) := by
  have hgt : ∀ a b : CandidateInput, a.value > b.value ↔ b.value.toInt < a.value.toInt :=
    fun a b => Int64.lt_iff_toInt_lt
  rw [selectCoins, swapSort_eq hgt]
  exact selectLoop_eq_search target [] _

theorem CoinTarget.stop?_isSome (target : CoinTarget) (inputs : List CandidateInput) :
    (target.stop? inputs).isSome ↔ target.Covers inputs := by
  unfold CoinTarget.stop?
  split_ifs with h <;> simp [h]

/-- Some of the candidates are worth the target and the fee for their number and a change output. -/
def CoinTarget.Funded (target : CoinTarget) (candidateInputs : List CandidateInput) : Prop :=
  ∃ coins : List CandidateInput, coins.Subperm candidateInputs ∧
    target.targetAmount.toInt +
      (feeFor (estimateTxSize (Int64.ofNat coins.length) (target.nOutputs + 1)) target.feeRate).toInt ≤
      (coins.map (·.value.toInt)).sum

theorem selectCoins_isOk (candidateInputs : List CandidateInput) (target : CoinTarget) :
    (∃ coins, selectCoins candidateInputs target = .ok coins) ↔
      ∃ run, run <+: sortInputs candidateInputs ∧ run ≠ [] ∧ target.Covers run := by
  simp only [selectCoins_eq_search, orFail_eq_ok, ← Option.isSome_iff_exists, searchPrefix_isSome, List.nil_append,
    CoinTarget.stop?_isSome]

end Uaptx

namespace UapJs

/-- The inputs cover the target and the fee for their number, as the loop computes them. -/
def Target.Covers (target : Target) (inputs : List PaymentInput) : Prop :=
  let totalInput := sumDouble (inputs.map (·.value))
  totalInput ≥ intToDouble (target.amount + target.fee inputs.length totalInput)

instance (target : Target) (inputs : List PaymentInput) : Decidable (target.Covers inputs) :=
  inferInstanceAs (Decidable (_ ≤ _))

def Target.stop? (target : Target) (inputs : List PaymentInput) : Option Selection :=
  if target.Covers inputs then
    let totalInput := sumDouble (inputs.map (·.value))
    let fee := target.fee inputs.length totalInput
    some ⟨inputs, totalInput, intToDouble (intToDouble (totalInput - target.amount) - fee), fee⟩
  else none

theorem selectLoop_eq_search (target : Target) (selected sorted : List PaymentInput) :
    selectLoop target selected (sumDouble (selected.map (·.value))) sorted =
      orFail "insufficient funds for transaction (cannot select enough UTXOs to cover target + fee)"
        (searchPrefix target.stop? selected sorted) := by
  induction sorted generalizing selected with
  | nil => rfl
  | cons input sorted ih =>
    have hsum : sumDouble ((selected ++ [input]).map (·.value)) =
        intToDouble (sumDouble (selected.map (·.value)) + input.value) := by simp [sumDouble]
    rw [selectLoop, searchPrefix, ← hsum, Target.stop?]
    by_cases h : target.Covers (selected ++ [input])
    · rw [if_pos h]
      exact if_pos h
    · rw [if_neg h, Option.none_or, ← ih]
      exact if_neg h

theorem selectCoins_eq_search (inputs : List PaymentInput) (target : Target) :
    selectCoins inputs target =
      orFail "insufficient funds for transaction (cannot select enough UTXOs to cover target + fee)"
        (searchPrefix target.stop? [] (sortInputs inputs)) := selectLoop_eq_search target [] _

theorem Target.stop?_isSome (target : Target) (inputs : List PaymentInput) :
    (target.stop? inputs).isSome ↔ target.Covers inputs := by
  unfold Target.stop?
  split_ifs with h <;> simp [h]

/-- Some of the candidates are worth the target and the fee for their number and a change output. -/
def Target.Funded (target : Target) (inputs : List PaymentInput) : Prop :=
  ∃ coins : List PaymentInput, coins.Subperm inputs ∧
    target.amount + feeFor (estimateTxSize coins.length (target.nOutputs + 1)) target.feeRate ≤ totalValue coins

theorem selectCoins_isOk (inputs : List PaymentInput) (target : Target) :
    (∃ selection, selectCoins inputs target = .ok selection) ↔
      ∃ run, run <+: sortInputs inputs ∧ run ≠ [] ∧ target.Covers run := by
  simp only [selectCoins_eq_search, orFail_eq_ok, ← Option.isSome_iff_exists, searchPrefix_isSome, List.nil_append,
    Target.stop?_isSome]

/-- Amounts for which the arithmetic of both ports is exact, at a rate of `k` satoshis per kilobyte. -/
structure ExactTarget (inputs : List PaymentInput) (target : Target) (k : ℤ) : Prop where
  positive : ∀ a ∈ inputs, 0 < a.value
  total_lt : totalValue inputs < 2 ^ 53
  amount_nonneg : 0 ≤ target.amount
  amount_lt : target.amount < 2 ^ 53
  script_lt : target.changeScriptLen < 2 ^ 53
  rate : target.feeRate = k
  rate_pos : 0 < k
  size_lt : k * estimateTxSize inputs.length (target.nOutputs + 1) < 2 ^ 53

variable {inputs : List PaymentInput} {target : Target} {k : ℤ}

theorem ExactTarget.safe (h : ExactTarget inputs target k) :
    SafeInputs inputs := ⟨fun a ha => (h.positive a ha).le, h.total_lt⟩

theorem ExactTarget.size_lt_of_le (h : ExactTarget inputs target k)
    {n m : ℕ} (hn : n ≤ inputs.length) (hm : m ≤ target.nOutputs + 1) : k * estimateTxSize n m < 2 ^ 53 := by
  have hle : (estimateTxSize n m : ℤ) ≤ estimateTxSize inputs.length (target.nOutputs + 1) := by
    unfold estimateTxSize
    omega
  exact (mul_le_mul_of_nonneg_left hle h.rate_pos.le).trans_lt h.size_lt

theorem ExactTarget.fee_lt (h : ExactTarget inputs target k) {n : ℕ}
    (hn : n ≤ inputs.length) (total : ℤ) : target.fee n total < 2 ^ 53 := by
  have hmin : recommendedMinTxFee = 1000000 := rfl
  unfold Target.fee
  rw [h.rate, feeFor_eq h.rate_pos (by unfold estimateTxSize; omega) (h.size_lt_of_le hn (by split_ifs <;> omega)),
    ceil_div_thousand]
  have hsize := h.size_lt_of_le hn
    (show target.nOutputs + (if total > target.amount ∧ target.changeScriptLen > 0 then 1 else 0) ≤ target.nOutputs + 1 by
      split_ifs <;> omega)
  omega

theorem Target.stop?_eq (hamount : 0 ≤ target.amount) (hsafe : SafeInputs inputs) :
    target.stop? inputs = if target.Enough inputs then some (target.chosen inputs) else none := by
  have hsum : sumDouble (inputs.map (·.value)) = totalValue inputs := by
    refine sumDouble_eq (fun v hv => ?_) hsafe.total_lt
    obtain ⟨a, ha, rfl⟩ := List.mem_map.mp hv
    exact hsafe.nonneg a ha
  have hnonneg := totalValue_nonneg hsafe.nonneg
  have hlt := hsafe.total_lt
  have hiff : target.Covers inputs ↔ target.Enough inputs := by
    unfold Target.Covers Target.Enough
    simp only [hsum, ge_iff_le, intToDouble_le hnonneg hlt]
  unfold Target.stop?
  simp only [hiff, hsum]
  split_ifs with henough
  · have hfee := target.fee_pos inputs.length (totalValue inputs)
    have hpos : 0 < recommendedMinTxFee := by decide
    unfold Target.Enough at henough
    rw [intToDouble_of_lt (n := totalValue inputs - target.amount) (by omega), intToDouble_of_lt (by omega)]
    rfl
  · rfl

def Target.toGo (target : Target) (k : ℤ) : Uaptx.CoinTarget where
  targetAmount := Int64.ofInt target.amount
  changeScriptSize := Int64.ofNat target.changeScriptLen
  feeRate := Int64.ofInt k
  nOutputs := Int64.ofNat target.nOutputs

end UapJs

namespace Uaptx

def CandidateInput.toJs (input : CandidateInput) : UapJs.PaymentInput :=
  ⟨input.txid, input.vout.toNat, input.value.toInt, input.scriptCode, input.privKey, input.pubKey⟩

def SelectedCoins.toJs (coins : SelectedCoins) : UapJs.Selection :=
  ⟨coins.selected.map (·.toJs), coins.totalInput.toInt, coins.change.toInt, coins.fee.toInt⟩

theorem toInt_totalInput {inputs : List CandidateInput} (h0 : ∀ a ∈ inputs, 0 ≤ a.value.toInt)
    (hlt : UapJs.totalValue (inputs.map (·.toJs)) < 2 ^ 53) :
    (totalInput inputs).toInt = UapJs.totalValue (inputs.map (·.toJs)) := by
  induction inputs using List.reverseRecOn with
  | nil => rfl
  | append_singleton inputs input ih =>
    have hinputs : 0 ≤ UapJs.totalValue (inputs.map (·.toJs)) := by
      apply UapJs.totalValue_nonneg
      intro a ha
      obtain ⟨c, hc, rfl⟩ := List.mem_map.mp ha
      exact h0 c (List.mem_append_left _ hc)
    have hinput : 0 ≤ input.value.toInt := h0 input (by simp)
    have htotal : UapJs.totalValue ((inputs ++ [input]).map (·.toJs)) =
        UapJs.totalValue (inputs.map (·.toJs)) + input.value.toInt := by simp [CandidateInput.toJs]
    rw [htotal] at hlt ⊢
    have hih := ih (fun a ha => h0 a (List.mem_append_left _ ha)) (by omega)
    rw [totalInput_append_singleton, toInt_add_eq hih rfl (by omega) (by omega)]

theorem toInt_estimateTxSize {nInputs nOutputs : ℕ} (h : UapJs.estimateTxSize nInputs nOutputs < 2 ^ 53) :
    (estimateTxSize (Int64.ofNat nInputs) (Int64.ofNat nOutputs)).toInt = UapJs.estimateTxSize nInputs nOutputs := by
  unfold UapJs.estimateTxSize at h
  have hin : (Int64.ofNat nInputs).toInt = nInputs := Int64.toInt_ofNat_of_lt (by omega)
  have hout : (Int64.ofNat nOutputs).toInt = nOutputs := Int64.toInt_ofNat_of_lt (by omega)
  have hins := toInt_mul_eq hin (show (150 : Int64).toInt = 150 from rfl) (by omega) (by omega)
  have houts := toInt_mul_eq hout (show (34 : Int64).toInt = 34 from rfl) (by omega) (by omega)
  have hsum := toInt_add_eq (show (10 : Int64).toInt = 10 from rfl) hins (by omega) (by omega)
  rw [estimateTxSize, toInt_add_eq hsum houts (by omega) (by omega), UapJs.estimateTxSize]
  push_cast
  rfl

theorem toInt_feeFor {size : ℕ} {k : ℤ} (hk : 0 < k) (hsize : 0 < size) (hlt : k * size < 2 ^ 53) {s r : Int64}
    (hs : s.toInt = size) (hr : r.toInt = k) : (feeFor s r).toInt = UapJs.feeFor size k := by
  have hpos : 0 < k * size := by positivity
  have hmul := toInt_mul_eq hs hr (by rw [mul_comm]; omega) (by rw [mul_comm]; omega)
  rw [mul_comm] at hmul
  have hadd := toInt_add_eq hmul (show (999 : Int64).toInt = 999 from rfl) (by omega) (by omega)
  have hdiv := toInt_div_eq hadd (show (1000 : Int64).toInt = 1000 from rfl) (by omega) (by omega)
  have hmin : recommendedMinTxFee.toInt = UapJs.recommendedMinTxFee := by decide
  rw [UapJs.feeFor_eq hk hsize hlt, UapJs.ceil_div_thousand]
  simp only [feeFor, int64_lt_iff hdiv hmin]
  split_ifs with h
  · rw [hmin]
    omega
  · rw [hdiv]
    omega

section
variable {target : UapJs.Target} {k : ℤ}

theorem toInt_estimatedFee {inputs : List UapJs.PaymentInput} (h : UapJs.ExactTarget inputs target k) {n : ℕ}
    (hn : n ≤ inputs.length) (total : Int64) :
    ((target.toGo k).estimatedFee (Int64.ofNat n) total).toInt = target.fee n total.toInt := by
  obtain ⟨m, hm⟩ : ∃ m, target.nOutputs + (if total.toInt > target.amount ∧ target.changeScriptLen > 0 then 1 else 0) = m :=
    ⟨_, rfl⟩
  have hsize := h.size_lt_of_le hn (show m ≤ target.nOutputs + 1 by rw [← hm]; split_ifs <;> omega)
  have hbase : 0 < UapJs.estimateTxSize n m := by unfold UapJs.estimateTxSize; omega
  have hrate : k ≤ k * UapJs.estimateTxSize n m := le_mul_of_one_le_right h.rate_pos.le (by omega)
  have hlt : (UapJs.estimateTxSize n m : ℤ) ≤ k * UapJs.estimateTxSize n m :=
    le_mul_of_one_le_left (by omega) h.rate_pos
  have hk : (Int64.ofInt k).toInt = k := Int64.toInt_ofInt_of_le (by have := h.rate_pos; omega) (by omega)
  have hamount : (Int64.ofInt target.amount).toInt = target.amount :=
    Int64.toInt_ofInt_of_le (by have := h.amount_nonneg; omega) (by have := h.amount_lt; omega)
  have hscript : (Int64.ofNat target.changeScriptLen).toInt = target.changeScriptLen :=
    Int64.toInt_ofNat_of_lt (by have := h.script_lt; omega)
  have houts : (if total > Int64.ofInt target.amount ∧ Int64.ofNat target.changeScriptLen > 0 then
      Int64.ofNat target.nOutputs + 1 else Int64.ofNat target.nOutputs) = Int64.ofNat m := by
    simp only [gt_iff_lt, int64_lt_iff hamount rfl, int64_lt_iff (show (0 : Int64).toInt = 0 from rfl) hscript,
      Int.natCast_pos] at hm ⊢
    rw [← hm]
    split_ifs
    · exact (Int64.ofNat_add _ _).symm
    · rfl
  have hfee := toInt_feeFor h.rate_pos hbase hsize (toInt_estimateTxSize (by omega)) hk
  rw [UapJs.Target.fee, h.rate, hm, ← hfee, ← houts]
  rfl

theorem stop?_toGo {inputs : List UapJs.PaymentInput} (h : UapJs.ExactTarget inputs target k) {run : List CandidateInput}
    (hlen : run.length ≤ inputs.length) (hsafe : UapJs.SafeInputs (run.map (·.toJs))) :
    ((target.toGo k).stop? run).map SelectedCoins.toJs =
      if target.Enough (run.map (·.toJs)) then some (target.chosen (run.map (·.toJs))) else none := by
  have hvalues : ∀ a ∈ run, 0 ≤ a.value.toInt := fun a ha => hsafe.nonneg a.toJs (List.mem_map_of_mem ha)
  have htotal := toInt_totalInput hvalues hsafe.total_lt
  have hnonneg := UapJs.totalValue_nonneg hsafe.nonneg
  have hlt := hsafe.total_lt
  have hfee := toInt_estimatedFee h hlen (totalInput run)
  rw [htotal] at hfee
  have hsmall := h.fee_lt hlen (UapJs.totalValue (run.map (·.toJs)))
  have hpos := target.fee_pos run.length (UapJs.totalValue (run.map (·.toJs)))
  have hmin : UapJs.recommendedMinTxFee = 1000000 := rfl
  have h0 := h.amount_nonneg
  have h1 := h.amount_lt
  have hamount : (target.toGo k).targetAmount.toInt = target.amount := Int64.toInt_ofInt_of_le (by omega) (by omega)
  have hneeded := toInt_add_eq hamount hfee (by omega) (by omega)
  have hiff : (target.toGo k).Covers run ↔ target.Enough (run.map (·.toJs)) := by
    unfold CoinTarget.Covers UapJs.Target.Enough
    rw [List.length_map]
    exact int64_le_iff hneeded htotal
  unfold CoinTarget.stop?
  simp only [hiff]
  split_ifs with henough
  · have hrest := toInt_sub_eq htotal hamount (by omega) (by omega)
    have hchange := toInt_sub_eq hrest hfee (by omega) (by omega)
    simp only [Option.map_some, SelectedCoins.toJs, UapJs.Target.chosen, List.length_map, htotal, hfee, hchange]
  · rfl

theorem sortInputs_toJs (candidates : List CandidateInput) :
    (sortInputs candidates).map (·.toJs) = UapJs.sortInputs (candidates.map (·.toJs)) :=
  List.map_insertionSort _ _ _ _ fun _ _ _ _ => Iff.rfl

theorem selectCoins_toJs {candidates : List CandidateInput} (h : UapJs.ExactTarget (candidates.map (·.toJs)) target k) :
    (selectCoins candidates (target.toGo k)).map SelectedCoins.toJs =
      UapJs.selectCoins (candidates.map (·.toJs)) target := by
  have hstop : ∀ run, run <+: sortInputs candidates →
      target.stop? (([] ++ run).map CandidateInput.toJs) = ((target.toGo k).stop? ([] ++ run)).map SelectedCoins.toJs := by
    intro run hrun
    have hlen : run.length ≤ (candidates.map (·.toJs)).length := by
      have := hrun.length_le
      simpa [sortInputs] using this
    have hpre : run.map (·.toJs) <+: UapJs.sortInputs (candidates.map (·.toJs)) := sortInputs_toJs candidates ▸ hrun.map _
    have hsorted := h.safe.sort
    have hsafe : UapJs.SafeInputs (run.map (·.toJs)) :=
      ⟨fun a ha => hsorted.nonneg a (hpre.subset ha), hsorted.total_lt_of_run hpre⟩
    rw [List.nil_append, stop?_toGo h hlen hsafe, UapJs.Target.stop?_eq h.amount_nonneg hsafe]
  rw [selectCoins_eq_search, UapJs.selectCoins_eq_search, ← sortInputs_toJs]
  have hsearch := searchPrefix_map _ _ hstop
  rw [List.map_nil] at hsearch
  rw [hsearch]
  cases searchPrefix (target.toGo k).stop? [] (sortInputs candidates) <;> rfl

end

end Uaptx

end Whippet.Ports
