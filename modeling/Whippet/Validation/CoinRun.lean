import Whippet.Validation.DisconnectRun

/-! The coins of a chain: what is unspent, and what it is worth. -/
namespace Whippet.Validation
open Lib Primitives Script Consensus

section
variable {node : Node} {chain : List CBlockIndex} {fScriptChecks : Bool} {view view' : CCoinsView} {tx : CTransaction}
  {hist : List (ℕ × CTransaction)}

theorem Connected.exact (hc : Connected node chain fScriptChecks view tx view')
    (he : (uapModel node.crypto).Exact hist view.output?) (hfresh : Fresh node.crypto hist tx) :
    (uapModel node.crypto).Exact (hist ++ [(chain.length, tx)]) view'.output? := by
  obtain ⟨undo, hupdate⟩ := hc.updated
  have hupdates := updates_of_updateCoins? hupdate
  rw [output?_of_updates chain.length he.toLedger hfresh hupdates]
  exact he.step (admissible_of_updates chain.length hfresh hupdates) hupdates.nodup

/-- What an unspent output is worth. The null output in the place of a spent one is worth nothing. -/
def outValue (out : CTxOut) : ℤ := if out.isNull then 0 else out.nValue.toInt

def coinsValue (view : CCoinsView) : ℤ := coinsWeight outValue view

def valueOut (tx : CTransaction) : ℤ := (tx.vout.map fun out => out.nValue.toInt).sum

def NonnegValues (view : CCoinsView) : Prop :=
  ∀ txid coins, view.lookup txid = some coins → ∀ out ∈ coins.vout, 0 ≤ outValue out

theorem outValue_of_isNull {out : CTxOut} (h : out.isNull = true) : outValue out = 0 := if_pos h

theorem NonnegValues.setCoins (h : NonnegValues view) {coins : CCoins} (hc : ∀ out ∈ coins.vout, 0 ≤ outValue out)
    (txid : Uint256) : NonnegValues (view.setCoins txid coins) := by
  intro txid' coins' hlookup
  rw [CCoinsView.lookup_setCoins] at hlookup
  split_ifs at hlookup
  · exact Option.some.inj hlookup ▸ hc
  · exact h txid' coins' hlookup

theorem NonnegValues.spendInputs (h : NonnegValues view) {vin : List CTxIn} {undos : List CTxInUndo}
    (hspend : spendInputs? vin view = some (view', undos)) : NonnegValues view' := by
  induction vin generalizing view undos with
  | nil =>
    obtain ⟨rfl, rfl⟩ : view = view' ∧ [] = undos := by simpa [spendInputs?] using hspend
    exact h
  | cons txin vin ih =>
    obtain ⟨mid, undo, hfirst, last, undos', hrest, rfl, rfl⟩ := spendInputs?_cons_inv hspend
    obtain ⟨coins, hcoins, _, -, rfl, -⟩ := spendInput?_inv hfirst
    refine ih (h.setCoins ?_ _) hrest
    intro out hout
    rcases List.mem_or_eq_of_mem_set ((List.rdropWhile_prefix _ _).subset hout) with hold | rfl
    · exact h _ coins hcoins out hold
    · exact le_refl 0

theorem getValueIn_eq (view : CCoinsView) (tx : CTransaction) : view.getValueIn tx =
    ((if tx.isCoinBase then [] else tx.vin).map fun txin => ((view.output? txin.prevout).map outValue).getD 0).sum := by
  unfold CCoinsView.getValueIn
  split_ifs
  · rfl
  · congr 1
    apply List.map_congr_left
    intro txin _
    cases hout : view.output? txin.prevout with
    | none => rfl
    | some out => simp [outValue, not_isNull_of_output? hout]

/-- A transaction adds at most what it pays out over what it takes in; overwriting an entry can only lose value. -/
theorem coinsValue_updateCoins? {crypto : Crypto} {nHeight : ℕ} {undo : List CTxInUndo} (hchecks : BasicChecks tx)
    (h : NonnegValues view) (hupdate : updateCoins? crypto tx view nHeight = some (view', undo)) :
    NonnegValues view' ∧ coinsValue view' ≤ coinsValue view - view.getValueIn tx + valueOut tx := by
  obtain ⟨mid, undo', hspend, rfl, rfl⟩ := updateCoins?_inv hupdate
  have hmid := h.spendInputs hspend
  have hmade : ∀ out ∈ tx.vout, 0 ≤ outValue (if isUnspendable out.scriptPubKey then CTxOut.null else out) ∧
      outValue (if isUnspendable out.scriptPubKey then CTxOut.null else out) ≤ out.nValue.toInt := by
    intro out hout
    have hnonneg := hchecks.value_nonneg out hout
    split_ifs
    · exact ⟨le_refl 0, hnonneg⟩
    · simp [outValue, isNull_of_nonneg hnonneg, hnonneg]
  constructor
  · refine hmid.setCoins (fun out hout => ?_) _
    obtain ⟨out', hout', rfl⟩ := List.mem_map.mp ((List.rdropWhile_prefix _ _).subset hout)
    exact (hmade out' hout').1
  · have hentry : 0 ≤ entryValue (CCoins.weight outValue) mid (crypto.txid tx) := by
      unfold entryValue
      cases hlookup : mid.lookup (crypto.txid tx) with
      | none => exact le_refl 0
      | some coins =>
        refine List.sum_nonneg fun v hv => ?_
        obtain ⟨out, hout, rfl⟩ := List.mem_map.mp hv
        exact hmid _ coins hlookup out hout
    have hnew : (CCoins.fromTx tx nHeight).weight outValue ≤ valueOut tx := by
      unfold CCoins.weight CCoins.fromTx valueOut
      rw [sum_map_cleanup fun _ => outValue_of_isNull, List.map_map]
      exact List.sum_le_sum fun out hout => (hmade out hout).2
    rw [coinsValue, coinsWeight_setCoins, coinsWeight_spendInputs? (fun _ => outValue_of_isNull) hspend, getValueIn_eq,
      sum_map_undo hspend, coinsValue]
    omega

theorem valueOut_of_getValueOut? {v : ℤ} (h : getValueOut? tx = some v) : v = valueOut tx := by
  suffices hsum : ∀ (vout : List CTxOut) n, vout.foldlM (fun nValueOut (txout : CTxOut) =>
      if !moneyRange txout.nValue.toInt || !moneyRange (nValueOut + txout.nValue.toInt) then none
      else some (nValueOut + txout.nValue.toInt)) n = some v → v = n + (vout.map fun out => out.nValue.toInt).sum by
    simpa [valueOut] using hsum tx.vout 0 h
  intro vout
  induction vout with
  | nil =>
    intro n hrun
    simpa using (Option.some.inj hrun).symm
  | cons out vout ih =>
    intro n hrun
    rw [List.foldlM_cons] at hrun
    obtain ⟨total, htotal, hrest⟩ := Option.bind_eq_some_iff.mp hrun
    split_ifs at htotal
    rw [ih total hrest, ← Option.some.inj htotal, List.map_cons, List.sum_cons, add_assoc]

theorem coinsValue_connectTx {t t' : ConnectState} (hchecks : BasicChecks tx) (h : NonnegValues t.view)
    (hstep : connectTx node chain fScriptChecks t tx = .ok t') : NonnegValues t'.view ∧
      coinsValue t'.view + t'.nFees ≤ coinsValue t.view + t.nFees + if tx.isCoinBase then valueOut tx else 0 := by
  simp only [connectTx, bind_eq_ok, orFail_eq_ok, Except.ok.injEq] at hstep
  obtain ⟨_, -, _, -, _, -, nFee, hfee, _, -, ⟨view, undo⟩, hupdate, rfl⟩ := hstep
  obtain ⟨hnonneg, hvalue⟩ := coinsValue_updateCoins? hchecks h hupdate
  refine ⟨hnonneg, ?_⟩
  unfold txFee at hfee
  split_ifs at hfee ⊢ with hcb
  · have hin : t.view.getValueIn tx = 0 := if_pos hcb
    obtain rfl := Except.ok.inj hfee
    dsimp only
    omega
  · simp only [bind_eq_ok, orFail_eq_ok, Except.ok.injEq] at hfee
    obtain ⟨v, hv, rfl⟩ := hfee
    have hout := valueOut_of_getValueOut? hv
    dsimp only
    omega

/-- What a block may create: nothing for the genesis block, whose transactions are not connected. -/
def blockSubsidy (node : Node) (nHeight : ℕ) (block : CBlock) : ℤ :=
  if isGenesis node block then 0
  else getWhippetBlockSubsidy node.generateMTRandom nHeight (node.params.getConsensus nHeight) block.hashPrevBlock

theorem coinsValue_connect {s s' : ChainState} {block : CBlock} (h : NonnegValues s.coins)
    (hconnect : connect node s block = .ok s') : NonnegValues s'.coins ∧
      coinsValue s'.coins ≤ coinsValue s.coins + blockSubsidy node s.nextHeight block := by
  obtain ⟨-, hcheck, hcoins⟩ := connect_eq_ok hconnect
  unfold blockSubsidy
  split_ifs at hcoins ⊢ with hg
  · rw [hcoins, add_zero]
    exact ⟨h, le_refl _⟩
  obtain ⟨c, hc, hview⟩ := hcoins
  obtain ⟨coinbase, txs, hvtx, hcb⟩ := coinbase_of_checkBlock hcheck
  have hrun := foldlM_ok (P := fun done (t : ConnectState) => NonnegValues t.view ∧ coinsValue t.view + t.nFees ≤
    coinsValue s.coins + (done.map fun tx => if tx.isCoinBase then valueOut tx else 0).sum) (foldlM_of_connectTxs hc)
    ⟨h, by simp⟩ (by
      rintro done tx t t' hmem ⟨hnonneg, hvalue⟩ hstep
      have hchecks := basicChecks_of_checkTransaction (checkTransaction_of_checkBlock hcheck tx hmem)
      obtain ⟨hnonneg', hvalue'⟩ := coinsValue_connectTx hchecks hnonneg hstep
      rw [List.map_append, List.sum_append, List.map_singleton, List.sum_singleton]
      exact ⟨hnonneg', by omega⟩)
  -- only the first transaction is a coinbase
  have htail : (txs.map fun tx => if tx.isCoinBase then valueOut tx else 0).sum = 0 := by
    apply List.sum_eq_zero
    intro v hv
    obtain ⟨tx, hmem, rfl⟩ := List.mem_map.mp hv
    rw [tail_of_checkBlock hcheck tx (by rwa [hvtx, List.tail_cons])]
    rfl
  rw [hvtx, List.map_cons, List.sum_cons, htail, hcb, if_pos rfl] at hrun
  have hprev := hashPrevBlock_of_connect hconnect
  simp only [connectTxs, bind_eq_ok, orFail_eq_ok, failIf_eq_ok, hvtx, List.head?_cons, Option.some.injEq] at hc
  obtain ⟨_, -, _, -, t, -, _, rfl, v, hv, _, hreward, hdone⟩ := hc
  obtain rfl : t = c := by simpa using hdone
  have hout := valueOut_of_getValueOut? hv
  rw [hview, hprev]
  exact ⟨hrun.1, by omega⟩

end

/-- The coins of a chain with distinct txids are its spendable outputs that no transaction of it spends. No output is
spent twice, and what is spent is an output of the chain. -/
theorem coins_exact (node : Node) (blocks : List CBlock) (s : ChainState)
    (hrun : connectBlocks node ⟨[], ∅⟩ blocks = .ok s) (hdistinct : DistinctTxids node.crypto (chainTxs node 0 blocks)) :
    let txs := chainTxs node 0 blocks
    (txs.flatMap fun t => txSpends t.2).Nodup ∧
      (∀ t ∈ txs, ∀ q ∈ txSpends t.2, ∃ t' ∈ txs, q.hash = node.crypto.txid t'.2 ∧ (txCoin? t'.2 q.n).isSome) ∧
      ∀ q out, s.coins.output? q = some out ↔
        (∃ t ∈ txs, q.hash = node.crypto.txid t.2 ∧ txCoin? t.2 q.n = some out) ∧ ¬ SpentIn txs q := by
  intro txs
  have hcreates : ∀ t q out, (uapModel node.crypto).creates t q = some out ↔
      q.hash = node.crypto.txid t.2 ∧ txCoin? t.2 q.n = some out := by
    intro t q out
    simp [uapModel]
  have hexact : (uapModel node.crypto).Exact txs s.coins.output? := by
    refine chain_run (P := fun hist view => DistinctTxids node.crypto hist →
      (uapModel node.crypto).Exact hist view.output?) hrun (fun _ => ⟨ledger_empty, by simp, by simp⟩) ?_ hdistinct
    intro hist chain header tx view view' _ hexact hconn hnew
    exact hconn.exact (hexact hnew.of_append) hnew.fresh
  refine ⟨hexact.once, fun t ht q hq => ?_, fun q out => ?_⟩
  · obtain ⟨t', ht', out, hc⟩ := hexact.known t ht q hq
    exact ⟨t', ht', ((hcreates t' q out).mp hc).1, by simp [((hcreates t' q out).mp hc).2]⟩
  · simp only [hexact.view_iff, hcreates, SpentIn, not_exists, not_and]
    rfl

theorem coins_exact_run : ∃ s,
    connectBlocks (regTestNode runSignatures 0) ⟨[], ∅⟩ (runBlocks ++ [runSpendBlock]) = .ok s ∧
      s.coins.output? ⟨runCrypto.txid runMintSpend, 0⟩ = some runPosition ∧
      ¬ SpentIn (chainTxs (regTestNode runSignatures 0) 0 (runBlocks ++ [runSpendBlock]))
        ⟨runCrypto.txid runMintSpend, 0⟩ := by
  obtain ⟨s, haccept, hposition⟩ := acceptBlocks_spend
  have hrun := connectBlocks_of_acceptBlocks haccept
  have hexact := coins_exact (regTestNode runSignatures 0) _ s hrun (runTxs_distinct.sublist (chainTxs_spend_sublist 0))
  exact ⟨s, hrun, hposition, ((hexact.2.2 _ _).mp hposition).2⟩

/-- All that is unspent after a chain of blocks is worth no more than the subsidies of its blocks: fees only move value,
and a coinbase pays out no more than its subsidy and the fees. -/
theorem coins_within_subsidies (node : Node) (blocks : List CBlock) (s : ChainState)
    (hrun : connectBlocks node ⟨[], ∅⟩ blocks = .ok s) :
    coinsValue s.coins ≤ (blocks.zipIdx.map fun e => blockSubsidy node e.2 e.1).sum := by
  refine (foldlM_ok (P := fun done (t : ChainState) => t.nextHeight = done.length ∧ NonnegValues t.coins ∧
    coinsValue t.coins ≤ (done.zipIdx.map fun e => blockSubsidy node e.2 e.1).sum)
    hrun ⟨rfl, fun _ _ h => by simp at h, le_refl 0⟩ ?_).2.2
  rintro done block t t' _ ⟨hheight, ht, hvalue⟩ hstep
  obtain ⟨ht', hvalue'⟩ := coinsValue_connect ht hstep
  refine ⟨by rw [nextHeight_of_connect hstep, hheight, List.length_append]; rfl, ht', ?_⟩
  rw [List.zipIdx_append, List.map_append, List.sum_append, List.zipIdx_singleton, List.map_singleton, List.sum_singleton,
    Nat.zero_add, ← hheight]
  exact hvalue'.trans (add_le_add_left hvalue _)

theorem coins_within_subsidies_run : ∃ s,
    connectBlocks (regTestNode runSignatures 0) ⟨[], ∅⟩ (runBlocks ++ [runSpendBlock]) = .ok s ∧
      coinsValue s.coins ≤ ((runBlocks ++ [runSpendBlock]).zipIdx.map fun e =>
        blockSubsidy (regTestNode runSignatures 0) e.2 e.1).sum := by
  obtain ⟨s, haccept, -⟩ := acceptBlocks_spend
  have hrun := connectBlocks_of_acceptBlocks haccept
  exact ⟨s, hrun, coins_within_subsidies (regTestNode runSignatures 0) _ s hrun⟩

end Whippet.Validation
