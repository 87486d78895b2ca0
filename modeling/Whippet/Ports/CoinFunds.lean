import Whippet.Ports.CoinSelect

/-! When coin selection finds the funds that exist. Each coin that is taken adds to the fee, and the cheapest are taken
first, so coins worth less than their own input can use up what the others are worth. -/
namespace Whippet.Ports
open Lib Primitives

namespace UapJs
variable {inputs : List PaymentInput} {target : Target} {k : ℤ}

theorem feeFor_add_le {n m j : ℕ} (hk : 0 < k) (hlt : k * estimateTxSize (n + j) m < 2 ^ 53) {c : ℤ}
    (hc : 150 * k ≤ 1000 * c) : feeFor (estimateTxSize (n + j) m) k ≤ feeFor (estimateTxSize n m) k + j * c := by
  have hgrow : (estimateTxSize (n + j) m : ℤ) = estimateTxSize n m + j * 150 := by
    unfold estimateTxSize
    push_cast
    ring
  have hbase : 0 < estimateTxSize n m := by unfold estimateTxSize; omega
  have hsize : k * estimateTxSize (n + j) m = k * estimateTxSize n m + j * (150 * k) := by
    rw [hgrow]
    ring
  have hcost : (j : ℤ) * (150 * k) ≤ 1000 * (j * c) := by
    calc
      (j : ℤ) * (150 * k) ≤ j * (1000 * c) := mul_le_mul_of_nonneg_left hc (Int.natCast_nonneg j)
      _ = 1000 * (j * c) := by ring
  have hnonneg : 0 ≤ (j : ℤ) * (150 * k) := by positivity
  have hpos : 0 < k * (estimateTxSize n m : ℤ) := by positivity
  rw [feeFor_eq hk (by unfold estimateTxSize; omega) hlt, feeFor_eq hk hbase (by omega), ceil_div_thousand,
    ceil_div_thousand]
  omega

theorem length_mul_le_totalValue {c : ℤ} {coins : List PaymentInput} (h : ∀ a ∈ coins, c ≤ a.value) :
    coins.length * c ≤ totalValue coins := by
  have := List.card_nsmul_le_sum (coins.map (·.value)) c (by simpa using h)
  simpa [totalValue] using this

theorem ExactTarget.fee_le (h : ExactTarget inputs target k) (total : ℤ) :
    target.fee inputs.length total ≤ feeFor (estimateTxSize inputs.length (target.nOutputs + 1)) k := by
  unfold Target.fee
  rw [h.rate]
  split_ifs
  · exact le_rfl
  · have hle : (estimateTxSize inputs.length target.nOutputs : ℤ) ≤ estimateTxSize inputs.length (target.nOutputs + 1) := by
      unfold estimateTxSize
      omega
    have hmul := mul_le_mul_of_nonneg_left hle h.rate_pos.le
    have hlt := h.size_lt
    rw [feeFor_eq h.rate_pos (by unfold estimateTxSize; omega) (by rw [add_zero]; omega), add_zero,
      feeFor_eq h.rate_pos (by unfold estimateTxSize; omega) hlt, ceil_div_thousand, ceil_div_thousand]
    omega

/-- Where every candidate is worth its own input, funds that exist are found: all the candidates together will do. -/
theorem selectCoins_of_worthwhile (h : ExactTarget inputs target k) (hworth : ∀ a ∈ inputs, 150 * k ≤ 1000 * a.value)
    (hfunded : target.Funded inputs) : ∃ selection, selectCoins inputs target = .ok selection := by
  obtain ⟨coins, ⟨coins', hcoins, hsub⟩, hcover⟩ := hfunded
  obtain ⟨rest, hrest⟩ := hsub.exists_perm_append
  have hperm : inputs.Perm (coins ++ rest) := hrest.trans (hcoins.append_right rest)
  have hsorted := (sortInputs_perm inputs).trans hperm
  have htotal : totalValue (sortInputs inputs) = totalValue coins + totalValue rest := by
    rw [← totalValue_append, totalValue, (hsorted.map _).sum_eq, totalValue]
  have hlen : inputs.length = coins.length + rest.length := by rw [hperm.length_eq, List.length_append]
  have hworthRest : rest.length * ((150 * k + 999) / 1000) ≤ totalValue rest := by
    refine length_mul_le_totalValue fun a ha => ?_
    have := hworth a (hperm.mem_iff.mpr (List.mem_append_right _ ha))
    omega
  have hfee := h.fee_le (totalValue (sortInputs inputs))
  have hlt := h.size_lt
  rw [hlen] at hfee hlt
  have hgrow := feeFor_add_le h.rate_pos hlt (show 150 * k ≤ 1000 * ((150 * k + 999) / 1000) by omega)
  rw [h.rate] at hcover
  have henough : target.Enough (sortInputs inputs) := by
    unfold Target.Enough
    rw [(sortInputs_perm inputs).length_eq, hlen]
    omega
  have hne : sortInputs inputs ≠ [] := by
    intro hnil
    have hpos := target.fee_pos (sortInputs inputs).length (totalValue (sortInputs inputs))
    have hmin : recommendedMinTxFee = 1000000 := rfl
    have h0 := h.amount_nonneg
    unfold Target.Enough at henough
    rw [hnil, totalValue_nil] at henough hpos
    omega
  rcases selectCoins_cases target h.amount_nonneg h.safe with ⟨s, -, -, -, -, hs⟩ | ⟨hnone, -⟩
  · exact ⟨_, hs⟩
  · exact absurd henough (hnone _ List.prefix_rfl hne)

end UapJs

/-- Funds that exist are found when some run of the cheapest candidates covers the target and its own fee, in either
port; candidates worth their own inputs are enough for that. -/
theorem selectCoins_finds_iff (inputs : List UapJs.PaymentInput) (target : UapJs.Target)
    (candidates : List Uaptx.CandidateInput) (goTarget : Uaptx.CoinTarget) :
    ((target.Funded inputs → ∃ selection, UapJs.selectCoins inputs target = .ok selection) ↔
      (target.Funded inputs → ∃ run, run <+: UapJs.sortInputs inputs ∧ run ≠ [] ∧ target.Covers run)) ∧
    ((goTarget.Funded candidates → ∃ coins, Uaptx.selectCoins candidates goTarget = .ok coins) ↔
      (goTarget.Funded candidates → ∃ run, run <+: Uaptx.sortInputs candidates ∧ run ≠ [] ∧ goTarget.Covers run)) ∧
    ∀ k, UapJs.ExactTarget inputs target k → (∀ a ∈ inputs, 150 * k ≤ 1000 * a.value) → target.Funded inputs →
      ∃ selection, UapJs.selectCoins inputs target = .ok selection := by
  refine ⟨?_, ?_, fun k h hworth hfunded => UapJs.selectCoins_of_worthwhile h hworth hfunded⟩
  · rw [UapJs.selectCoins_isOk]
  · rw [Uaptx.selectCoins_isOk]

namespace FundsSample

def coin (value : Int64) : Uaptx.CandidateInput := ⟨[], 0, value, [], [], []⟩

def candidates (small : Int64) : List Uaptx.CandidateInput := List.replicate 7 (coin small) ++ [coin 100000000]

def target : UapJs.Target := ⟨99000000, 25, 1000000, 1⟩

theorem funded (small : Int64) :
    target.Funded ((candidates small).map (·.toJs)) ∧ (target.toGo 1000000).Funded (candidates small) := by
  refine ⟨⟨[(coin 100000000).toJs], ?_, by decide +kernel⟩, ⟨[coin 100000000], ?_, by decide⟩⟩
  · exact List.singleton_subperm_iff.mpr (by simp [candidates])
  · exact List.singleton_subperm_iff.mpr (by simp [candidates])

end FundsSample

open FundsSample

/-- One coin would do, and seven coins of a thousand satoshis use it up. -/
theorem selectCoins_dust_starves :
    target.Funded ((candidates 1000).map (·.toJs)) ∧ (target.toGo 1000000).Funded (candidates 1000) ∧
      (UapJs.selectCoins ((candidates 1000).map (·.toJs)) target).isOk = false ∧
      (Uaptx.selectCoins (candidates 1000) (target.toGo 1000000)).isOk = false :=
  ⟨(funded 1000).1, (funded 1000).2, by decide +kernel, by decide +kernel⟩

/-- Seven coins that are worth their inputs do not stand in the way. -/
theorem selectCoins_finds_worthwhile :
    target.Funded ((candidates 200000).map (·.toJs)) ∧
      ∃ selection, UapJs.selectCoins ((candidates 200000).map (·.toJs)) target = .ok selection := by
  have hexact : UapJs.ExactTarget ((candidates 200000).map (·.toJs)) target 1000000 :=
    ⟨by decide, by decide, by decide, by decide, by decide, rfl, by decide, by decide⟩
  obtain ⟨-, -, hfinds⟩ := selectCoins_finds_iff ((candidates 200000).map (·.toJs)) target (candidates 200000)
    (target.toGo 1000000)
  exact ⟨(funded 200000).1, hfinds 1000000 hexact (by decide) (funded 200000).1⟩

end Whippet.Ports
