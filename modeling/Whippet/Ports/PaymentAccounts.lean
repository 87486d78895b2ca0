import Whippet.Ports.CoinSelect

/-! Where the money of a payment goes: the coins it spends, the change it returns, and the fee it leaves. -/
namespace Whippet.Ports.UapJs
open Lib Primitives

/-- A payment in whole amounts that doubles hold exactly, at a rate of `k` satoshis per kilobyte. -/
structure ExactPayment (opts : PaymentOpts) (k : ℤ) : Prop where
  positive : ∀ a ∈ opts.inputs, 0 < a.value
  total_lt : totalValue opts.inputs < 2 ^ 53
  outputs_nonneg : ∀ o ∈ opts.outputs, 0 ≤ o.value
  outputs_lt : (opts.outputs.map (·.value)).sum < 2 ^ 53
  script_lt : (opts.changeScript.getD []).length < 2 ^ 53
  rate : opts.feeRate = some (k : ℚ)
  rate_pos : 0 < k
  size_lt : k * estimateTxSize opts.inputs.length (opts.outputs.length + 1) < 2 ^ 53

/-- The fee that the estimated size asks for. A change output is counted when the coins exceed what is paid. -/
def PaymentOpts.estimate (opts : PaymentOpts) (k : ℤ) (coins : List PaymentInput) : ℤ :=
  let change := totalValue coins > (opts.outputs.map (·.value)).sum ∧ (opts.changeScript.getD []).length > 0
  let size := estimateTxSize coins.length (opts.outputs.length + if change then 1 else 0)
  max ⌈((k * size : ℤ) : ℚ) / 1000⌉ recommendedMinTxFee

def paidFee (coins : List PaymentInput) (tx : Tx) : ℤ := totalValue coins - (tx.vout.map (·.value)).sum

/-- The accounts of a payment that spends `coins` and returns `change`. -/
structure Accounts (opts : PaymentOpts) (k : ℤ) (tx : Tx) (coins : List PaymentInput) (change : List PortTxOut) :
    Prop where
  /-- The coins are candidates, each taken once, and no candidate left is worth less than one that is taken. -/
  smallest : ∃ rest, (coins ++ rest).Perm opts.inputs ∧ (coins ++ rest).Pairwise fun a b => a.value ≤ b.value
  spent : tx.vin.map TxIn.outpoint = coins.map fun a => (a.txid, a.vout)
  distinct : (opts.inputs.map fun a => (a.txid, a.vout)).Nodup → (tx.vin.map TxIn.outpoint).Nodup
  paid : tx.vout = opts.outputs ++ change
  change_length : change.length ≤ 1
  change_dust : ∀ o ∈ change, defaultDustLimit ≤ o.value ∧ opts.changeScript = some o.scriptPubKey
  fee_ge : opts.estimate k coins ≤ paidFee coins tx
  fee_le : (paidFee coins tx : WithTop ℤ) ≤ opts.maxFee.getD defaultTransactionMaxFee
  fee_excess : paidFee coins tx - opts.estimate k coins < defaultDustLimit

section
variable {opts : PaymentOpts} {k : ℤ}

theorem ExactPayment.amount (h : ExactPayment opts k) : opts.target.amount = (opts.outputs.map (·.value)).sum := by
  refine sumDouble_eq (fun v hv => ?_) h.outputs_lt
  obtain ⟨o, ho, rfl⟩ := List.mem_map.mp hv
  exact h.outputs_nonneg o ho

theorem ExactPayment.target (h : ExactPayment opts k) : ExactTarget opts.inputs opts.target k := by
  have hnonneg : 0 ≤ (opts.outputs.map (·.value)).sum := by
    refine List.sum_nonneg fun v hv => ?_
    obtain ⟨o, ho, rfl⟩ := List.mem_map.mp hv
    exact h.outputs_nonneg o ho
  have hrate : opts.rate = k := by
    have hk : (k : ℚ) ≠ 0 := by exact_mod_cast h.rate_pos.ne'
    rw [PaymentOpts.rate, h.rate, Option.getD_some, if_neg hk]
  exact ⟨h.positive, h.total_lt, h.amount ▸ hnonneg, h.amount ▸ h.outputs_lt, h.script_lt, hrate, h.rate_pos, h.size_lt⟩

theorem ExactPayment.fee_eq (h : ExactPayment opts k) {coins : List PaymentInput} (hlen : coins.length ≤ opts.inputs.length) :
    opts.target.fee coins.length (totalValue coins) = opts.estimate k coins := by
  unfold Target.fee PaymentOpts.estimate
  rw [h.target.rate, h.amount]
  refine feeFor_eq h.rate_pos (by unfold estimateTxSize; omega) (h.target.size_lt_of_le hlen ?_)
  split_ifs <;> simp [PaymentOpts.target]

def PaymentOpts.changeOuts (opts : PaymentOpts) (change : ℤ) : List PortTxOut :=
  if change ≥ defaultDustLimit then (opts.changeScript.map (⟨change, ·⟩)).toList else []

theorem mem_changeOuts {change : ℤ} {o : PortTxOut} (ho : o ∈ opts.changeOuts change) :
    defaultDustLimit ≤ o.value ∧ o.value = change ∧ opts.changeScript = some o.scriptPubKey := by
  unfold PaymentOpts.changeOuts at ho
  split_ifs at ho with hdust
  · simp only [Option.mem_toList, Option.map_eq_some_iff] at ho
    obtain ⟨script, hscript, rfl⟩ := ho
    exact ⟨hdust, rfl, hscript⟩
  · simp at ho

theorem length_changeOuts (change : ℤ) : (opts.changeOuts change).length ≤ 1 := by
  unfold PaymentOpts.changeOuts
  split_ifs
  · cases opts.changeScript <;> simp
  · simp

theorem sum_changeOuts {change : ℤ} (h : ¬ (change ≥ defaultDustLimit ∧ opts.changeScript = none)) :
    ((opts.changeOuts change).map (·.value)).sum = if change ≥ defaultDustLimit then change else 0 := by
  unfold PaymentOpts.changeOuts
  split_ifs with hdust
  · obtain ⟨script, hscript⟩ := Option.ne_none_iff_exists'.mp fun hnone => h ⟨hdust, hnone⟩
    simp [hscript]
  · rfl

theorem smallest_of_run {inputs coins : List PaymentInput} (h : coins <+: sortInputs inputs) :
    ∃ rest, (coins ++ rest).Perm inputs ∧ (coins ++ rest).Pairwise fun a b => a.value ≤ b.value := by
  have htotal : Std.Total fun a b : PaymentInput => a.value ≤ b.value := ⟨fun a b => le_total _ _⟩
  have htrans : IsTrans PaymentInput fun a b => a.value ≤ b.value := ⟨fun a b c => le_trans⟩
  obtain ⟨rest, hrest⟩ := h
  refine ⟨rest, ?_, ?_⟩
  · rw [hrest]
    exact sortInputs_perm inputs
  · rw [hrest]
    exact List.pairwise_insertionSort _ _

theorem buildPaymentTx_inv {crypto : Crypto} {secp : Secp} {tx : Tx} (h : buildPaymentTx crypto secp opts = .ok tx) :
    ∃ s, selectCoins opts.inputs opts.target = .ok s ∧ ¬ (s.change ≥ defaultDustLimit ∧ opts.changeScript = none) ∧
      ¬ ((intToDouble (s.totalInput - sumDouble ((opts.outputs ++ opts.changeOuts s.change).map (·.value))) : ℤ) :
        WithTop ℤ) > opts.maxFee.getD defaultTransactionMaxFee ∧
      tx.vout = opts.outputs ++ opts.changeOuts s.change ∧
      tx.vin.map TxIn.outpoint = s.selected.map fun a => (a.txid, a.vout) := by
  simp only [buildPaymentTx, bind_eq_ok, failIf_eq_ok] at h
  obtain ⟨s, hs, -, hchange, -, hfee, hsign⟩ := h
  obtain ⟨hvout, hvin⟩ := signInputs_frame hsign
  refine ⟨s, hs, hchange, hfee, hvout, hvin.trans ?_⟩
  simp [paymentSkeleton, TxIn.outpoint, Function.comp_def]

/-- Whatever is built spends a run of the cheapest coins, pays what was asked, and leaves the estimated fee and less
than the dust limit on top of it. -/
theorem buildPaymentTx_accounts (h : ExactPayment opts k) {crypto : Crypto} {secp : Secp} {tx : Tx}
    (hbuild : buildPaymentTx crypto secp opts = .ok tx) : ∃ coins change, Accounts opts k tx coins change := by
  obtain ⟨s, hs, hchange, hcap, hvout, hvin⟩ := buildPaymentTx_inv hbuild
  have hsafe := h.target.safe
  rcases selectCoins_cases opts.target h.target.amount_nonneg hsafe with ⟨coins, hcoins, -, henough, -, hsel⟩ | ⟨-, e, he⟩
  · obtain rfl := Except.ok.inj (hsel.symm.trans hs)
    have hlen : coins.length ≤ opts.inputs.length := hcoins.length_le.trans_eq (sortInputs_perm opts.inputs).length_eq
    obtain ⟨change, hleft⟩ : ∃ change, (opts.target.chosen coins).change = change := ⟨_, rfl⟩
    have hvalue : change = totalValue coins - (opts.outputs.map (·.value)).sum - opts.estimate k coins := by
      rw [← hleft, ← h.amount, ← h.fee_eq hlen]
      rfl
    rw [hleft] at hchange hcap hvout
    have hsum : ((opts.outputs ++ opts.changeOuts change).map (·.value)).sum = (opts.outputs.map (·.value)).sum +
        if change ≥ defaultDustLimit then change else 0 := by rw [List.map_append, List.sum_append, sum_changeOuts hchange]
    have hpaid : paidFee coins tx = totalValue coins - ((opts.outputs ++ opts.changeOuts change).map (·.value)).sum := by
      rw [paidFee, hvout]
    have hoverall := hsafe.sort.total_lt_of_run hcoins
    have h0 := h.amount ▸ h.target.amount_nonneg
    have hdust : defaultDustLimit = 1000000 := rfl
    have hmin : recommendedMinTxFee = 1000000 := rfl
    have hestimate : recommendedMinTxFee ≤ opts.estimate k coins := le_max_right _ _
    have hnonneg : 0 ≤ change := by
      have : opts.target.amount + opts.target.fee coins.length (totalValue coins) ≤ totalValue coins := henough
      rw [h.amount, h.fee_eq hlen] at this
      omega
    have hfee : paidFee coins tx = opts.estimate k coins + if change ≥ defaultDustLimit then 0 else change := by
      rw [hpaid, hsum]
      split_ifs <;> omega
    refine ⟨coins, opts.changeOuts change, ?_, hvin, ?_, hvout, length_changeOuts change, ?_, ?_, ?_, ?_⟩
    · exact smallest_of_run hcoins
    · intro hnodup
      rw [hvin]
      exact ((hcoins.sublist.map _).nodup) ((((sortInputs_perm opts.inputs).map _).nodup_iff).mpr hnodup)
    · intro o ho
      obtain ⟨hge, -, hscript⟩ := mem_changeOuts ho
      exact ⟨hge, hscript⟩
    · rw [hfee]
      split_ifs <;> omega
    · have hexact : sumDouble ((opts.outputs ++ opts.changeOuts change).map (·.value)) = totalValue coins - paidFee coins tx := by
        rw [hpaid, sub_sub_cancel]
        refine sumDouble_eq (fun v hv => ?_) (by rw [hsum]; split_ifs <;> omega)
        obtain ⟨o, ho, rfl⟩ := List.mem_map.mp hv
        rcases List.mem_append.mp ho with ho | ho
        · exact h.outputs_nonneg o ho
        · exact (show 0 ≤ defaultDustLimit by decide).trans (mem_changeOuts ho).1
      have htotal : (opts.target.chosen coins).totalInput = totalValue coins := rfl
      rw [htotal, hexact, sub_sub_cancel, intToDouble_of_lt (by rw [hfee]; split_ifs <;> omega)] at hcap
      exact not_lt.mp hcap
    · rw [hfee]
      split_ifs <;> omega
  · simp [he] at hs

end

/-- Whatever `buildPaymentTx` returns keeps its accounts, and the Go port selects the same coins. -/
theorem payment_accounting (crypto : Crypto) (secp : Secp) (k : ℤ) :
    (∀ opts tx, ExactPayment opts k → buildPaymentTx crypto secp opts = .ok tx →
      ∃ coins change, Accounts opts k tx coins change) ∧
    ∀ (candidates : List Uaptx.CandidateInput) (target : Target), ExactTarget (candidates.map (·.toJs)) target k →
      (Uaptx.selectCoins candidates (target.toGo k)).map (·.toJs) = selectCoins (candidates.map (·.toJs)) target :=
  ⟨fun _ _ h hbuild => buildPaymentTx_accounts h hbuild, fun _ _ h => Uaptx.selectCoins_toJs h⟩

namespace PaymentSample

def txid : List Char := List.replicate 64 '0'

def secp : Secp := ⟨fun _ _ => List.replicate 70 1, fun _ => []⟩

def candidates : List Uaptx.CandidateInput :=
  [⟨txid, 0, 500000000, [], [], []⟩, ⟨txid, 1, 30000000, [], [], []⟩, ⟨txid, 2, 30000000, [], [], []⟩]

def opts : PaymentOpts where
  inputs := candidates.map (·.toJs)
  outputs := [⟨50000000, []⟩]
  changeScript := some [0x51]
  feeRate := some 10000

theorem exact_opts : ExactPayment opts 10000 where
  positive := by decide
  total_lt := by decide
  outputs_nonneg := by decide
  outputs_lt := by decide
  script_lt := by decide
  rate := rfl
  rate_pos := by decide
  size_lt := by decide

end PaymentSample

/-- The two equal coins pay, and change comes back. -/
theorem payment_accounting_sample :
    (∃ tx, buildPaymentTx (Crypto.recorded []) PaymentSample.secp PaymentSample.opts = .ok tx ∧ tx.vout.length = 2 ∧
      ∃ coins change, Accounts PaymentSample.opts 10000 tx coins change) ∧
    (Uaptx.selectCoins PaymentSample.candidates (PaymentSample.opts.target.toGo 10000)).map (·.toJs) =
      selectCoins PaymentSample.opts.inputs PaymentSample.opts.target := by
  obtain ⟨haccounts, hagree⟩ := payment_accounting (Crypto.recorded []) PaymentSample.secp 10000
  refine ⟨?_, hagree _ _ PaymentSample.exact_opts.target⟩
  have hok : ((buildPaymentTx (Crypto.recorded []) PaymentSample.secp PaymentSample.opts).toOption.map
      (·.vout.length)) = some 2 := by decide +kernel
  obtain ⟨tx, htx, hlen⟩ := Option.map_eq_some_iff.mp hok
  have hbuild := toOption_eq_some.mp htx
  exact ⟨tx, hbuild, hlen, haccounts _ tx PaymentSample.exact_opts hbuild⟩

end Whippet.Ports.UapJs
