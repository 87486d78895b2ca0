import Whippet.Web.MintBuild

/-! When a mint plan describes the mint that is built. The plan spends every UTXO; the builder stops at the first run of
the cheapest ones that is enough. -/
namespace Whippet.Web
open Lib Primitives Ports
open Indexer (Text)
open Ports.UapJs (PaymentInput feeFor defaultDustLimit totalValue sortInputs)

/-- The review screen shows the mint that is built: the change is none or not dust, the mint builds, and its fee and
change are those of the plan. -/
def PlanDescribesMint (crypto : Crypto) (host : Host) (secp : UapJs.Secp) (wallet : MintWallet) (utxos : List Utxo)
    (plan : MintPlan) : Prop :=
  (plan.change = 0 ∨ defaultDustLimit ≤ plan.change) ∧
    ∃ built, buildMintTx crypto host secp plan wallet utxos = .ok built ∧ feePaid utxos built.tx = plan.fee ∧
      changePaid built.tx = plan.change

def MintInput.ascending (input : MintInput) : List ℤ := (input.utxos.map (·.value)).insertionSort (· ≤ ·)

def MintInput.rest (input : MintInput) : ℤ :=
  (input.utxos.map (·.value)).sum - input.amountSats - mintFee input.feeRate input.utxos.length

/-- The mint needs every UTXO, and leaves no dust. -/
structure NeedsEveryUtxo (input : MintInput) : Prop where
  rest : input.rest = 0 ∨ defaultDustLimit ≤ input.rest
  all : ∀ k < input.utxos.length,
    (input.ascending.take k).sum < input.amountSats + mintFee (builderRate input.feeRate) k
  cap : mintFee input.feeRate input.utxos.length ≤ UapJs.defaultTransactionMaxFee
  rate : mintFee (builderRate input.feeRate) input.utxos.length = mintFee input.feeRate input.utxos.length

section
variable {crypto : Crypto} {host : Host} {secp : UapJs.Secp} {wallet : MintWallet} {input : MintInput} {plan : MintPlan}

/-- What an accepted input and its plan say, without the roundings. -/
structure Accepted (host : Host) (input : MintInput) (plan : MintPlan) : Prop where
  ticker : ∃ t, normalizeTicker host t = .ok plan.ticker
  multiplier : 0 ≤ plan.multiplier ∧ plan.multiplier ≤ 2147483647
  amount_eq : plan.amountSats = input.amountSats
  amount : 1000 * UapJs.coin ≤ input.amountSats
  amount_lt : input.amountSats < (input.utxos.map (·.value)).sum
  rate : plan.feeRate = input.feeRate
  fee : plan.fee = mintFee input.feeRate input.utxos.length
  change : plan.change = intToDouble input.rest
  nonempty : input.utxos ≠ []

theorem accepted_of_planMint (hplan : planMint host input = .ok plan) (hvalues : ∀ u ∈ input.utxos, 0 < u.value)
    (hsafe : (input.utxos.map (·.value)).sum < 2 ^ 53) : Accepted host input plan := by
  obtain ⟨upper, m, hticker, h0, h1, hamount, hne, hfunds, rfl⟩ := planMint_eq_ok hplan
  have hnonneg : ∀ v ∈ input.utxos.map (·.value), 0 ≤ v := by
    intro v hv
    obtain ⟨u, hu, rfl⟩ := List.mem_map.mp hv
    exact (hvalues u hu).le
  have htotal : input.totalUtxoValue = (input.utxos.map (·.value)).sum := sumDouble_eq hnonneg hsafe
  have hpos : 0 < UapJs.recommendedMinTxFee := by decide
  have hfee := UapJs.fee_pos (estimateTxSize input.utxos.length 2) input.feeRate
  have hcoin : UapJs.coin = 100000000 := rfl
  rw [htotal, intToDouble_le (List.sum_nonneg hnonneg) hsafe] at hfunds
  refine ⟨⟨_, hticker⟩, ⟨h0, h1⟩, rfl, hamount, by omega, rfl, rfl, ?_, hne⟩
  dsimp only
  rw [htotal, intToDouble_of_lt (n := (input.utxos.map (·.value)).sum - input.amountSats) (by omega)]
  rfl

theorem totalValue_inputs (crypto : Crypto) (wallet : MintWallet) (utxos : List Utxo) :
    totalValue (utxos.map (Utxo.input crypto wallet)) = (utxos.map (·.value)).sum := by
  rw [totalValue, List.map_map]
  rfl

theorem safeInputs (crypto : Crypto) (wallet : MintWallet) (hvalues : ∀ u ∈ input.utxos, 0 < u.value)
    (hsafe : (input.utxos.map (·.value)).sum < 2 ^ 53) :
    UapJs.SafeInputs (input.utxos.map (Utxo.input crypto wallet)) := by
  refine ⟨fun a ha => ?_, by rwa [totalValue_inputs]⟩
  obtain ⟨u, hu, rfl⟩ := List.mem_map.mp ha
  exact (hvalues u hu).le

def MintInput.sorted (crypto : Crypto) (wallet : MintWallet) (input : MintInput) : List PaymentInput :=
  sortInputs (input.utxos.map (Utxo.input crypto wallet))

theorem length_sorted : (input.sorted crypto wallet).length = input.utxos.length := by
  rw [MintInput.sorted, (UapJs.sortInputs_perm _).length_eq, List.length_map]

theorem totalValue_sorted : totalValue (input.sorted crypto wallet) = (input.utxos.map (·.value)).sum := by
  rw [← totalValue_inputs crypto wallet, totalValue, totalValue]
  exact ((UapJs.sortInputs_perm _).map _).sum_eq

theorem totalValue_take (crypto : Crypto) (wallet : MintWallet) (k : ℕ) :
    totalValue ((input.sorted crypto wallet).take k) = (input.ascending.take k).sum := by
  have hsorted : (input.sorted crypto wallet).map (·.value) = input.ascending := by
    rw [MintInput.sorted, sortInputs, List.map_insertionSort (fun a b : PaymentInput => a.value ≤ b.value) (· ≤ ·)
      (·.value) _ (fun _ _ _ _ => Iff.rfl), List.map_map]
    rfl
  rw [totalValue, List.map_take, hsorted]

theorem eq_sorted_of_totalValue (hvalues : ∀ u ∈ input.utxos, 0 < u.value) {s : List PaymentInput}
    (hs : s <+: input.sorted crypto wallet) (htotal : (input.utxos.map (·.value)).sum ≤ totalValue s) :
    s = input.sorted crypto wallet := by
  obtain ⟨rest, hrest⟩ := hs
  have hsum : totalValue (input.sorted crypto wallet) = (input.utxos.map (·.value)).sum := totalValue_sorted
  rw [← hrest, UapJs.totalValue_append] at hsum
  cases rest with
  | nil => simpa using hrest
  | cons a rest =>
    have hpos : ∀ b ∈ a :: rest, 0 < b.value := by
      intro b hb
      obtain ⟨u, hu, rfl⟩ := List.mem_map.mp
        ((UapJs.sortInputs_perm _).mem_iff.mp (hrest ▸ List.mem_append_right s hb))
      exact hvalues u hu
    have ha := hpos a List.mem_cons_self
    have hothers : 0 ≤ totalValue rest :=
      UapJs.totalValue_nonneg fun b hb => (hpos b (List.mem_cons_of_mem a hb)).le
    have hcons : totalValue (a :: rest) = a.value + totalValue rest := by simp [totalValue]
    omega

theorem Accepted.enough_iff (h : Accepted host input plan) {s : List PaymentInput} :
    (mintTarget plan.amountSats plan.feeRate).Enough s ↔
      input.amountSats + mintFee (builderRate input.feeRate) s.length ≤ totalValue s := by
  rw [enough_mintTarget, h.amount_eq, h.rate]

theorem Accepted.change_eq (h : Accepted host input plan) (s : List PaymentInput) : SelectedMint.change plan s =
    totalValue s - input.amountSats - mintFee (builderRate input.feeRate) s.length := by
  rw [SelectedMint.change, h.amount_eq, h.rate]

theorem Accepted.selection (h : Accepted host input plan) (hvalues : ∀ u ∈ input.utxos, 0 < u.value)
    (hsafe : (input.utxos.map (·.value)).sum < 2 ^ 53) (hready : MintReady crypto secp wallet input.utxos) :
    (∃ s, SelectedMint crypto host secp wallet input.utxos plan s ∧
      ∀ p, p <+: s → p ≠ [] → (mintTarget plan.amountSats plan.feeRate).Enough p → p = s) ∨
    (∀ p, p <+: input.sorted crypto wallet → p ≠ [] → ¬ (mintTarget plan.amountSats plan.feeRate).Enough p) ∧
      ∀ built, buildMintTx crypto host secp plan wallet input.utxos ≠ .ok built := by
  have hsafeInputs := safeInputs crypto wallet hvalues hsafe
  have hcoin : UapJs.coin = 100000000 := rfl
  have h0 : 0 ≤ plan.amountSats := by
    rw [h.amount_eq]
    exact le_trans (by decide) h.amount
  rcases UapJs.selectCoins_cases (mintTarget plan.amountSats plan.feeRate) h0 hsafeInputs with
    ⟨s, hs, -, henough, hfirst, hselect⟩ | ⟨hnone, e, hselect⟩
  · exact .inl ⟨s, ⟨hready, h.ticker, h.multiplier, h0, hs, hsafeInputs.sort.total_lt_of_run hs, henough, hselect⟩, hfirst⟩
  · exact .inr ⟨hnone, buildMintTx_ne_ok hready h0 (h.amount_eq ▸ h.amount_lt.trans hsafe) hselect⟩

theorem describes_of_needsEveryUtxo (haccepted : Accepted host input plan) (hvalues : ∀ u ∈ input.utxos, 0 < u.value)
    (hsafe : (input.utxos.map (·.value)).sum < 2 ^ 53) (hready : MintReady crypto secp wallet input.utxos)
    (hneeds : NeedsEveryUtxo input) : PlanDescribesMint crypto host secp wallet input.utxos plan := by
  have hdust : defaultDustLimit = 1000000 := rfl
  have hrest0 : 0 ≤ input.rest := by rcases hneeds.rest with h | h <;> omega
  have henough : (mintTarget plan.amountSats plan.feeRate).Enough (input.sorted crypto wallet) := by
    rw [haccepted.enough_iff, length_sorted, totalValue_sorted, hneeds.rate]
    unfold MintInput.rest at hrest0
    omega
  rcases haccepted.selection hvalues hsafe hready with ⟨s, hmint, -⟩ | ⟨hnone, -⟩
  swap
  · refine absurd henough (hnone _ (List.prefix_refl _) fun hnil => haccepted.nonempty ?_)
    exact List.length_eq_zero_iff.mp (length_sorted.symm.trans (congrArg List.length hnil))
  -- No shorter run is enough, so the builder takes every input as well.
  have hs : s <+: input.sorted crypto wallet := hmint.sorted
  obtain rfl : s = input.sorted crypto wallet := by
    by_contra hne
    have hlt : s.length < input.utxos.length := by
      rw [← length_sorted]
      exact lt_of_le_of_ne hs.length_le fun h => hne (hs.eq_of_length h)
    have hshort := hneeds.all s.length hlt
    rw [← totalValue_take crypto wallet, ← List.prefix_iff_eq_take.mp hs] at hshort
    exact absurd (haccepted.enough_iff.mp hmint.enough) (not_le.mpr hshort)
  have hchange : SelectedMint.change plan (input.sorted crypto wallet) = input.rest := by
    rw [haccepted.change_eq, length_sorted, totalValue_sorted, hneeds.rate]
    rfl
  have hpaidChange : paidChange input.rest = input.rest := by
    unfold paidChange
    rcases hneeds.rest with h | h
    · rw [h]
      decide
    · rw [if_pos h]
  have hfee : SelectedMint.fee plan (input.sorted crypto wallet) = plan.fee := by
    rw [SelectedMint.fee, hchange, hpaidChange, totalValue_sorted, haccepted.amount_eq, haccepted.fee, MintInput.rest]
    omega
  have hplanChange : plan.change = input.rest := by
    have hfee0 := UapJs.fee_pos (UapJs.estimateTxSize input.utxos.length 3) input.feeRate
    have hmin : UapJs.recommendedMinTxFee = 1000000 := rfl
    have hcoin : UapJs.coin = 100000000 := rfl
    have hamount := haccepted.amount
    rw [haccepted.change, intToDouble_of_lt]
    unfold MintInput.rest mintFee at hrest0 ⊢
    omega
  obtain ⟨built, hbuilt⟩ := hmint.isOk (by rw [hfee, haccepted.fee]; exact hneeds.cap)
  obtain ⟨-, hpaidFee, hpaid⟩ := hmint.paid hbuilt
  refine ⟨hplanChange ▸ hneeds.rest, built, hbuilt, hpaidFee.trans hfee, ?_⟩
  rw [hpaid, hchange, hpaidChange, hplanChange]

theorem needsEveryUtxo_of_describes (haccepted : Accepted host input plan) (hvalues : ∀ u ∈ input.utxos, 0 < u.value)
    (hsafe : (input.utxos.map (·.value)).sum < 2 ^ 53) (hready : MintReady crypto secp wallet input.utxos)
    (hdescribes : PlanDescribesMint crypto host secp wallet input.utxos plan) : NeedsEveryUtxo input := by
  obtain ⟨hplanChange, built, hbuilt, hfee, hchange⟩ := hdescribes
  rcases haccepted.selection hvalues hsafe hready with ⟨s, hmint, hfirst⟩ | ⟨-, hnone⟩
  swap
  · exact absurd hbuilt (hnone built)
  obtain ⟨hcap, hpaidFee, hpaidChange⟩ := hmint.paid hbuilt
  have hcovers := haccepted.enough_iff.mp hmint.enough
  have hsChange := haccepted.change_eq s
  have hsLt := hmint.total_lt
  have hdust : defaultDustLimit = 1000000 := rfl
  have hcoin : UapJs.coin = 100000000 := rfl
  have hmin : UapJs.recommendedMinTxFee = 1000000 := rfl
  have hamount := haccepted.amount
  have hpaid : SelectedMint.fee plan s + paidChange (SelectedMint.change plan s) = totalValue s - input.amountSats := by
    rw [SelectedMint.fee, haccepted.amount_eq]
    omega
  have hrest : input.rest = paidChange (SelectedMint.change plan s) := by
    have hsmall : (paidChange (SelectedMint.change plan s)).natAbs < 2 ^ 53 := by
      have hfee0 := UapJs.fee_pos (UapJs.estimateTxSize s.length 3) (builderRate input.feeRate)
      rw [hsChange, paidChange]
      unfold mintFee
      split_ifs <;> omega
    rw [← intToDouble_eq hsmall, ← haccepted.change, ← hchange, hpaidChange]
  -- The figures add up to all the UTXOs only if all of them were selected.
  have hall := eq_sorted_of_totalValue hvalues hmint.sorted (by
    rw [haccepted.fee] at hfee
    unfold MintInput.rest at hrest
    omega)
  have hsLen : s.length = input.utxos.length := by rw [hall, length_sorted]
  refine ⟨?_, ?_, ?_, ?_⟩
  · rw [hrest, ← hpaidChange, hchange]
    exact hplanChange
  · intro k hk
    by_contra hge
    rw [not_lt, ← totalValue_take crypto wallet] at hge
    have hkLen : ((input.sorted crypto wallet).take k).length = k := by
      rw [List.length_take, length_sorted]
      omega
    have hk0 : (input.sorted crypto wallet).take k ≠ [] := by
      intro hnil
      have hfee0 := UapJs.fee_pos (UapJs.estimateTxSize k 3) (builderRate input.feeRate)
      rw [hnil, UapJs.totalValue_nil] at hge
      unfold mintFee at hge
      omega
    have heq := hfirst _ (hall ▸ List.take_prefix k _) hk0 (haccepted.enough_iff.mpr (by rwa [hkLen]))
    rw [← heq] at hsLen
    omega
  · rw [← haccepted.fee, ← hfee, hpaidFee]
    exact hcap
  · rw [hsLen] at hsChange hcovers
    rw [haccepted.fee, hpaidFee] at hfee
    by_cases hrate : input.feeRate = 0
    · have hzero : mintFee 0 input.utxos.length = UapJs.recommendedMinTxFee := by
        simp [mintFee, feeFor, toDouble_zero, UapJs.recommendedMinTxFee]
      have hle : mintFee (builderRate input.feeRate) input.utxos.length ≤ mintFee input.feeRate input.utxos.length := by
        unfold paidChange at hpaid
        split_ifs at hpaid <;> omega
      have hge := UapJs.fee_pos (UapJs.estimateTxSize input.utxos.length 3) (builderRate input.feeRate)
      rw [hrate] at hle ⊢
      rw [hzero] at hle ⊢
      exact le_antisymm hle (hrate ▸ hge)
    · rw [builderRate, if_neg hrate]

end

namespace MintPlanSample

def host : Host where
  toUpperCase t := t.map fun c => if isTickerChar c then c else c.toUpper
  stringifyAt t i := ['"', t.getD i ' ', '"']
  numberText q := (toString q).toList
  toUpperCase_eq t h := by
    refine (List.map_congr_left fun c hc => ?_).trans (List.map_id t)
    rw [if_pos (List.all_eq_true.mp h c hc), id]

def secp : UapJs.Secp := ⟨fun _ _ => List.replicate 70 1, fun _ => []⟩

def crypto : Crypto := Crypto.recorded []

def wallet : MintWallet where
  privKey := List.replicate 32 7
  pubKey := 2 :: List.replicate 32 1
  changeAddress := pubkeyToAddress crypto (2 :: List.replicate 32 1) 0x49

def input (values : List ℤ) : MintInput where
  ticker := "WHIP".toList
  multiplier := some 10
  amountSats := 1000 * UapJs.coin
  utxos := values.zipIdx.map fun v => ⟨List.replicate 64 'a', v.2, v.1, none⟩
  feeRate := 1000

end MintPlanSample

open MintPlanSample

end Whippet.Web
