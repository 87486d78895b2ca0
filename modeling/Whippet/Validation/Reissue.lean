import Whippet.Validation.SupplyCap

/-! When a chain creates an outpoint, and so the origin of a lineage, only once. -/
namespace Whippet.Validation
open Lib Primitives Script

/-- Among these transactions the txid determines the transaction. -/
def TxidInjective (crypto : Crypto) (txs : List (ℕ × CTransaction)) : Prop :=
  ∀ t ∈ txs, ∀ t' ∈ txs, crypto.txid t.2 = crypto.txid t'.2 → t.2 = t'.2

/-- No coinbase transaction occurs twice. -/
def CoinbasesDistinct (txs : List (ℕ × CTransaction)) : Prop :=
  ((txs.map Prod.snd).filter CTransaction.isCoinBase).Nodup

/-- Every outpoint is made once, and two creations of a mint output have different origins. -/
structure NeverReissued (crypto : Crypto) (txs : List (ℕ × CTransaction)) : Prop where
  outpoint : ∀ (i j : ℕ) t t' p out out', txs[i]? = some t → txs[j]? = some t' → CreatedAt crypto [t] p out →
    CreatedAt crypto [t'] p out' → i = j
  origin : ∀ (i j : ℕ) t t' p p' out out', txs[i]? = some t → txs[j]? = some t' → CreatedAt crypto [t] p out →
    CreatedAt crypto [t'] p' out' → isMintOutput out = true → isMintOutput out' = true →
    uapOriginFromOutpoint crypto p = uapOriginFromOutpoint crypto p' → i = j ∧ p = p'

section
variable {crypto : Crypto} {node : Node} {s₀ s : ChainState} {hist later txs : List (ℕ × CTransaction)}
  {view view' : CCoinsView} {chain : List CBlockIndex} {tx : CTransaction} {blocks : List CBlock}

theorem TxidInjective.of_append (h : TxidInjective crypto (hist ++ later)) : TxidInjective crypto hist :=
  fun t ht t' ht' => h t (List.mem_append_left _ ht) t' (List.mem_append_left _ ht')

theorem CoinbasesDistinct.of_append (h : CoinbasesDistinct (hist ++ later)) : CoinbasesDistinct hist := by
  rw [CoinbasesDistinct, List.map_append, List.filter_append] at h
  exact h.of_append_left

/-- A transaction that spends cannot come again while its inputs stay spent, so only a coinbase can. -/
theorem fresh_of_coinbasesDistinct {nHeight : ℕ} {fScriptChecks : Bool}
    (hc : Connected node chain fScriptChecks view tx view')
    (hl : (uapModel node.crypto).Ledger hist view.output?)
    (hinj : TxidInjective node.crypto (hist ++ [(nHeight, tx)]))
    (hcb : CoinbasesDistinct (hist ++ [(nHeight, tx)])) : Fresh node.crypto hist tx := by
  intro t hmem htxid
  have heq : t.2 = tx := hinj t (List.mem_append_left _ hmem) (nHeight, tx) (by simp) htxid
  cases hcoin : tx.isCoinBase with
  | true =>
    rw [CoinbasesDistinct, List.map_append, List.filter_append] at hcb
    refine List.disjoint_of_nodup_append hcb (a := tx) ?_ (by simp [hcoin])
    exact List.mem_filter.mpr ⟨List.mem_map.mpr ⟨t, hmem, heq⟩, hcoin⟩
  | false =>
    obtain ⟨txin, hin⟩ := List.exists_mem_of_ne_nil _ (basicChecks_of_checkTransaction hc.checked).vin_ne_nil
    have hspends : txin.prevout ∈ txSpends tx := by
      rw [txSpends, hcoin]
      exact List.mem_map_of_mem hin
    obtain ⟨undo, hupdate⟩ := hc.updated
    obtain ⟨out, hout⟩ := (updates_of_updateCoins? hupdate).available _ hspends
    have hgone : view.output? txin.prevout = none := by
      apply hl.spent t hmem
      change txin.prevout ∈ txSpends t.2
      rwa [heq]
    rw [hgone] at hout
    contradiction

theorem distinctTxids_of_run (hempty : s₀.coins = ∅) (run : connectBlocks node s₀ blocks = .ok s)
    (hinj : TxidInjective node.crypto (chainTxs node s₀.nextHeight blocks))
    (hcb : CoinbasesDistinct (chainTxs node s₀.nextHeight blocks)) :
    DistinctTxids node.crypto (chainTxs node s₀.nextHeight blocks) := by
  refine (chain_run (P := fun hist view => TxidInjective node.crypto hist → CoinbasesDistinct hist →
    DistinctTxids node.crypto hist ∧ (uapModel node.crypto).Ledger hist view.output?) run ?_ ?_ hinj hcb).1
  · intro _ _
    rw [hempty]
    exact ⟨List.nodup_nil, ledger_empty⟩
  · intro hist chain header tx view view' _ hP hconn hi hb
    obtain ⟨hdistinct, hledger⟩ := hP hi.of_append hb.of_append
    have hfresh := fresh_of_coinbasesDistinct hconn hledger hi hb
    refine ⟨?_, hconn.ledger hledger hfresh⟩
    rw [DistinctTxids, List.map_append, List.nodup_append]
    refine ⟨hdistinct, List.nodup_singleton _, ?_⟩
    intro a ha b hb' heq
    obtain ⟨t, hmem, rfl⟩ := List.mem_map.mp ha
    rw [List.map_singleton, List.mem_singleton] at hb'
    exact hfresh t hmem (heq.trans hb')

theorem basicChecks_of_run (run : connectBlocks node s₀ blocks = .ok s) :
    ∀ t ∈ chainTxs node s₀.nextHeight blocks, BasicChecks t.2 := by
  refine chain_run (P := fun hist _ => ∀ t ∈ hist, BasicChecks t.2) run (by simp) ?_
  intro hist chain header tx view view' _ hP hconn t hmem
  rcases List.mem_append.mp hmem with hold | hnew
  · exact hP t hold
  · rw [List.mem_singleton.mp hnew]
    exact basicChecks_of_checkTransaction hconn.checked

theorem createdAt_singleton {t : ℕ × CTransaction} {p : COutPoint} {out : CTxOut} :
    CreatedAt crypto [t] p out ↔ p.hash = crypto.txid t.2 ∧ t.2.vout[p.n.toNat]? = some out := by
  simp [CreatedAt]

theorem neverReissued_of_distinctTxids (hd : DistinctTxids crypto txs) (hcol : CollisionFree crypto txs) :
    NeverReissued crypto txs := by
  have hone : ∀ (i j : ℕ) t t' p out out', txs[i]? = some t → txs[j]? = some t' → CreatedAt crypto [t] p out →
      CreatedAt crypto [t'] p out' → i = j := by
    intro i j t t' p out out' hi hj hc hc'
    have htxid : crypto.txid t.2 = crypto.txid t'.2 :=
      (createdAt_singleton.mp hc).1.symm.trans (createdAt_singleton.mp hc').1
    have hlt : i < (txs.map fun t => crypto.txid t.2).length := by
      rw [List.length_map]
      exact (List.getElem?_eq_some_iff.mp hi).1
    apply (List.getElem?_inj hlt hd).mp
    rw [List.getElem?_map, List.getElem?_map, hi, hj, Option.map_some, Option.map_some, htxid]
  refine ⟨hone, ?_⟩
  intro i j t t' p p' out out' hi hj hc hc' _ _ horigin
  have hcreated : CreatedAt crypto txs p out :=
    ⟨t, List.mem_of_getElem? hi, createdAt_singleton.mp hc⟩
  have hcreated' : CreatedAt crypto txs p' out' :=
    ⟨t', List.mem_of_getElem? hj, createdAt_singleton.mp hc'⟩
  obtain rfl := hcol p p' out out' hcreated hcreated' horigin
  exact ⟨hone i j t t' p out out' hi hj hc hc', rfl⟩

/-- A coinbase that occurs twice makes its first outpoint twice. -/
theorem coinbasesDistinct_of_neverReissued (hchecks : ∀ t ∈ txs, BasicChecks t.2)
    (h : NeverReissued crypto txs) : CoinbasesDistinct txs := by
  apply List.Nodup.filter
  rw [List.nodup_iff_injective_getElem]
  intro i j heq
  have hi : i.1 < txs.length := by simpa using i.2
  have hj : j.1 < txs.length := by simpa using j.2
  have heq' : txs[i.1].2 = txs[j.1].2 := by simpa using heq
  obtain ⟨out, hout⟩ : ∃ out, txs[i.1].2.vout[0]? = some out := by
    cases hv : txs[i.1].2.vout with
    | nil => exact absurd hv (hchecks _ (List.getElem_mem hi)).vout_ne_nil
    | cons out vout => exact ⟨out, rfl⟩
  have hcreated : CreatedAt crypto [txs[i.1]] ⟨crypto.txid txs[i.1].2, 0⟩ out :=
    createdAt_singleton.mpr ⟨rfl, hout⟩
  have hcreated' : CreatedAt crypto [txs[j.1]] ⟨crypto.txid txs[i.1].2, 0⟩ out :=
    createdAt_singleton.mpr ⟨by rw [heq'], by rw [← heq']; exact hout⟩
  exact Fin.ext (h.outpoint i.1 j.1 _ _ _ out out (List.getElem?_eq_getElem hi) (List.getElem?_eq_getElem hj)
    hcreated hcreated')

end

/-- A chain creates every outpoint once exactly when no coinbase transaction is mined twice. -/
theorem neverReissued_iff_coinbasesDistinct (node : Node) (s : ChainState) (blocks : List CBlock)
    (hrun : acceptBlocks node ⟨[], ∅⟩ blocks = .ok s) (hinj : TxidInjective node.crypto (chainTxs node 0 blocks))
    (hcol : CollisionFree node.crypto (chainTxs node 0 blocks)) :
    NeverReissued node.crypto (chainTxs node 0 blocks) ↔ CoinbasesDistinct (chainTxs node 0 blocks) := by
  have hconnect := connectBlocks_of_acceptBlocks hrun
  constructor
  · exact coinbasesDistinct_of_neverReissued (basicChecks_of_run hconnect)
  · intro hcb
    exact neverReissued_of_distinctTxids (distinctTxids_of_run rfl hconnect hinj hcb) hcol

theorem coinbasesDistinct_of_distinctTxids {crypto : Crypto} {txs : List (ℕ × CTransaction)}
    (h : DistinctTxids crypto txs) : CoinbasesDistinct txs := by
  have hnodup : ((txs.map Prod.snd).map crypto.txid).Nodup := by rwa [List.map_map]
  exact hnodup.of_map.filter _

theorem DistinctTxids.txidInjective {crypto : Crypto} {txs txs' : List (ℕ × CTransaction)}
    (h : DistinctTxids crypto txs') (hsub : txs.map Prod.snd ⊆ txs'.map Prod.snd) : TxidInjective crypto txs := by
  have hnodup : ((txs'.map Prod.snd).map crypto.txid).Nodup := by rwa [List.map_map]
  intro t ht t' ht' heq
  exact List.inj_on_of_nodup_map hnodup (hsub (List.mem_map_of_mem ht)) (hsub (List.mem_map_of_mem ht')) heq

theorem neverReissued_iff_coinbasesDistinct_run :
    NeverReissued runCrypto (chainTxs (regTestNode runSignatures 0) 0 (runBlocks ++ [runSpendBlock])) := by
  obtain ⟨s, haccept, -⟩ := acceptBlocks_spend
  have hsub := chainTxs_spend_sublist 0
  have hdistinct := runTxs_distinct.sublist hsub
  refine (neverReissued_iff_coinbasesDistinct (regTestNode runSignatures 0) s _ haccept ?_ ?_).mpr ?_
  · exact hdistinct.txidInjective (List.Subset.refl _)
  · exact runTxs_collisionFree.subset (hsub.map _).subset
  · exact coinbasesDistinct_of_distinctTxids hdistinct

def runReissueBlock : CBlock :=
  nextBlock runCrypto runSpendHash [firstCoinbase] (regTestTime 62) 2

example : runReissueBlock.vtx = firstBlock.vtx := by decide +kernel

theorem chainTxs_reissue : ∃ txs, chainTxs (regTestNode runSignatures 0) 0 (runBlocks ++ [runSpendBlock, runReissueBlock]) =
    (1, firstCoinbase) :: txs ++ [(62, firstCoinbase)] := by
  have hagain : blockTxs (regTestNode runSignatures 0) 62 runReissueBlock = [(62, firstCoinbase)] := by
    decide +kernel
  rw [chainTxs_run, chainTxs, chainTxs, chainTxs, List.append_nil, hagain, ← List.append_assoc]
  exact ⟨_, rfl⟩

theorem chainTxs_reissue_subset :
    (chainTxs (regTestNode runSignatures 0) 0 (runBlocks ++ [runSpendBlock, runReissueBlock])).map Prod.snd ⊆
      runTxs.map Prod.snd := by
  have hspend := ((chainTxs_spend_sublist 0).map Prod.snd).subset
  have hagain := ((blockTxs_sublist (regTestNode runSignatures 0) 62 runReissueBlock).map Prod.snd).subset
  rw [List.append_cons, chainTxs_append, List.map_append]
  refine List.append_subset.mpr ⟨hspend, ?_⟩
  rw [chainTxs, chainTxs, List.append_nil]
  refine List.Subset.trans hagain ?_
  simp [runReissueBlock, nextBlock, runTxs]

theorem neverReissued_fails : ∃ blocks s, acceptBlocks (regTestNode runSignatures 0) ⟨[], ∅⟩ blocks = .ok s ∧
    TxidInjective runCrypto (chainTxs (regTestNode runSignatures 0) 0 blocks) ∧
    CollisionFree runCrypto (chainTxs (regTestNode runSignatures 0) 0 blocks) ∧
    ¬ NeverReissued runCrypto (chainTxs (regTestNode runSignatures 0) 0 blocks) := by
  have heval : (acceptBlocks (regTestNode runSignatures 0) runState [runSpendBlock, runReissueBlock]).toOption.isSome =
      true := by
    decide +kernel
  obtain ⟨s, hs⟩ := Option.isSome_iff_exists.mp heval
  refine ⟨runBlocks ++ [runSpendBlock, runReissueBlock], s, ?_, ?_, ?_, ?_⟩
  · rw [acceptBlocks_run]
    exact toOption_eq_some.mp hs
  · exact runTxs_distinct.txidInjective chainTxs_reissue_subset
  · exact runTxs_collisionFree.subset chainTxs_reissue_subset
  · intro hnever
    obtain ⟨txs, htxs⟩ := chainTxs_reissue
    rw [htxs] at hnever
    have hcreated : CreatedAt runCrypto [(1, firstCoinbase)] ⟨runCrypto.txid firstCoinbase, 0⟩
        ⟨100000000000, uapScript ⟨mintKey, 5, [], true⟩⟩ := createdAt_singleton.mpr ⟨rfl, rfl⟩
    have hagain : CreatedAt runCrypto [(62, firstCoinbase)] ⟨runCrypto.txid firstCoinbase, 0⟩
        ⟨100000000000, uapScript ⟨mintKey, 5, [], true⟩⟩ := createdAt_singleton.mpr ⟨rfl, rfl⟩
    have hsame := hnever.outpoint 0 (txs.length + 1) _ _ _ _ _ rfl (by simp) hcreated hagain
    omega

end Whippet.Validation
