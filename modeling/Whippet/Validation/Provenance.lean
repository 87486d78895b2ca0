import Whippet.Validation.SupplyCap

/-! Where the positions that a chain spends come from, for any activation height. -/
namespace Whippet.Validation
open Lib Primitives Script Consensus

/-- The transaction is in a block at which the UAP rules apply. -/
def UapChecked (node : Node) (t : ℕ × CTransaction) : Prop := (node.params.getConsensus 0).uapMintHeight ≤ t.1

section
variable {node : Node} {s₀ s : ChainState} {blocks : List CBlock}

theorem traced_of_run (hempty : s₀.coins = ∅) (hscripts : ∀ chain header,
      (node.params.getConsensus 0).uapMintHeight ≤ chain.length → node.fScriptChecks chain header = true)
    (run : connectBlocks node s₀ blocks = .ok s)
    (hdistinct : DistinctTxids node.crypto (chainTxs node s₀.nextHeight blocks)) :
    (uapModel node.crypto).Ledger (chainTxs node s₀.nextHeight blocks) s.coins.output? ∧
      (uapModel node.crypto).Traced (UapChecked node) (chainTxs node s₀.nextHeight blocks) := by
  refine chain_run (P := fun hist view => DistinctTxids node.crypto hist →
    (uapModel node.crypto).Ledger hist view.output? ∧ (uapModel node.crypto).Traced (UapChecked node) hist)
    run ?_ ?_ hdistinct
  · intro _
    rw [hempty]
    exact ⟨ledger_empty, by simp [LineageModel.Traced]⟩
  · intro hist chain header tx view view' _ hP hconn hd
    obtain ⟨hledger, htraced⟩ := hP hd.of_append
    refine ⟨hconn.ledger hledger hd.fresh, htraced.step hledger ?_⟩
    intro hchecked
    change (node.params.getConsensus 0).uapMintHeight ≤ chain.length at hchecked
    have hactive : uapMintActive node chain.length = true := by simpa [uapMintActive] using hchecked
    rw [hscripts chain header hchecked] at hconn
    exact ⟨backed_of_creation (hconn.creation hactive), admitted_of_scripts hactive (hconn.scripts rfl)⟩

end

/-- A transfer output spent where the rules apply descends within its lineage from a spent mint output of
at least the entry fee that heads the lineage, or from a transfer output made below the activation height. -/
theorem position_provenance (node : Node) (s₀ s : ChainState) (blocks : List CBlock) (hempty : s₀.coins = ∅)
    (hscripts : ∀ chain header, (node.params.getConsensus 0).uapMintHeight ≤ chain.length →
      node.fScriptChecks chain header = true)
    (hrun : connectBlocks node s₀ blocks = .ok s)
    (hdistinct : DistinctTxids node.crypto (chainTxs node s₀.nextHeight blocks)) :
    ∀ t ∈ chainTxs node s₀.nextHeight blocks, (node.params.getConsensus 0).uapMintHeight ≤ t.1 →
      ∀ q ∈ txSpends t.2, ∀ out key v, CreatedAt node.crypto (chainTxs node s₀.nextHeight blocks) q out →
        transferPosition? out = some (key, v) →
        ∃ p, (uapModel node.crypto).Descends (chainTxs node s₀.nextHeight blocks) key p q ∧
          ((∃ mint, SpentMint node.crypto (chainTxs node s₀.nextHeight blocks) key p mint ∧
              1000 * coin ≤ mint.nValue.toInt) ∨
            ∃ t' ∈ chainTxs node s₀.nextHeight blocks, t'.1 < (node.params.getConsensus 0).uapMintHeight ∧
              ∃ out' v', CreatedAt node.crypto [t'] p out' ∧ transferPosition? out' = some (key, v')) := by
  intro t hmem _ q hq out key v hcreated hpos
  obtain ⟨hledger, htraced⟩ := traced_of_run hempty hscripts hrun hdistinct
  obtain ⟨t', hmem', out', hc⟩ := hledger.known t hmem q hq
  -- the output made at the spent outpoint is the one the ledger knows
  obtain ⟨t'', hmem'', htxid, hout⟩ := hcreated
  obtain rfl : t' = t'' := hdistinct.eq_of_txid hmem' hmem'' ((txid_of_creates hc).symm.trans htxid)
  obtain rfl : out' = out := Option.some.inj ((mem_vout_of_creates hc).symm.trans hout)
  obtain ⟨p, hsource, hdescends⟩ := htraced t' hmem' q out' key hc (holds_eq_some.mpr ⟨v, hpos⟩)
  refine ⟨p, hdescends, ?_⟩
  rcases hsource with ⟨mint, hroot, hallowed, hmint, tx, htx, -, hspent⟩ | ⟨tx, htx, hold, early, hearly, hhold⟩
  · exact Or.inl ⟨mint, SpentMint.of_spentRoot ⟨hroot, hmint, tx, htx, hspent⟩, hallowed.1⟩
  · obtain ⟨v', hv'⟩ := holds_eq_some.mp hhold
    refine Or.inr ⟨tx, htx, by simpa [UapChecked] using hold, early, v', ?_, hv'⟩
    exact createdAt_of_creates (List.mem_singleton_self tx) hearly

/-- If no transfer output is made below the activation height, every position spent where the rules apply
descends from a spent mint that locked the entry fee. -/
theorem position_descends_from_mint (node : Node) (s₀ s : ChainState) (blocks : List CBlock) (hempty : s₀.coins = ∅)
    (hscripts : ∀ chain header, (node.params.getConsensus 0).uapMintHeight ≤ chain.length →
      node.fScriptChecks chain header = true)
    (hrun : connectBlocks node s₀ blocks = .ok s)
    (hdistinct : DistinctTxids node.crypto (chainTxs node s₀.nextHeight blocks))
    (hearly : ∀ t ∈ chainTxs node s₀.nextHeight blocks, t.1 < (node.params.getConsensus 0).uapMintHeight →
      transferOutputs t.2 = []) :
    ∀ t ∈ chainTxs node s₀.nextHeight blocks, (node.params.getConsensus 0).uapMintHeight ≤ t.1 →
      ∀ q ∈ txSpends t.2, ∀ out key v, CreatedAt node.crypto (chainTxs node s₀.nextHeight blocks) q out →
        transferPosition? out = some (key, v) →
        ∃ p mint, (uapModel node.crypto).Descends (chainTxs node s₀.nextHeight blocks) key p q ∧
          SpentMint node.crypto (chainTxs node s₀.nextHeight blocks) key p mint ∧ 1000 * coin ≤ mint.nValue.toInt := by
  intro t hmem hheight q hq out key v hcreated hpos
  obtain ⟨p, hdescends, hsource⟩ :=
    position_provenance node s₀ s blocks hempty hscripts hrun hdistinct t hmem hheight q hq out key v hcreated hpos
  rcases hsource with ⟨mint, hmint, hfee⟩ | ⟨t', hmem', hlow, out', v', hcreated', hpos'⟩
  · exact ⟨p, mint, hdescends, hmint, hfee⟩
  · obtain ⟨t'', ht'', -, hout⟩ := hcreated'
    rw [List.mem_singleton.mp ht''] at hout
    have hposition : (key, v') ∈ transferOutputs t'.2 :=
      List.mem_filterMap.mpr ⟨out', List.mem_of_getElem? hout, hpos'⟩
    rw [hearly t' hmem' hlow] at hposition
    exact absurd hposition List.not_mem_nil

theorem isCoinBase_runMove : runMove.isCoinBase = false := by decide +kernel

theorem isCoinBase_runForgedMove : runForgedMove.isCoinBase = false := by decide +kernel

theorem chainTxs_move_eq : chainTxs (regTestNode runSignatures 0) 61 [runSpendBlock, runMoveBlock] =
    [(61, emptyCoinbase 61), (61, runMintSpend), (62, emptyCoinbase 62), (62, runMove)] := by
  decide +kernel

theorem position_descends_from_mint_run : ∃ p mint,
    (uapModel runCrypto).Descends (chainTxs (regTestNode runSignatures 0) 0 (runBlocks ++ [runSpendBlock, runMoveBlock]))
        runLineage p ⟨runCrypto.txid runMintSpend, 0⟩ ∧
      SpentMint runCrypto (chainTxs (regTestNode runSignatures 0) 0 (runBlocks ++ [runSpendBlock, runMoveBlock]))
        runLineage p mint ∧
      1000 * coin ≤ mint.nValue.toInt := by
  have heval : (acceptBlocks (regTestNode runSignatures 0) runState [runSpendBlock, runMoveBlock]).toOption.isSome =
      true := by
    decide +kernel
  obtain ⟨s, hs⟩ := Option.isSome_iff_exists.mp heval
  have haccept : acceptBlocks (regTestNode runSignatures 0) ⟨[], ∅⟩ (runBlocks ++ [runSpendBlock, runMoveBlock]) = .ok s := by
    rw [acceptBlocks_run]
    exact toOption_eq_some.mp hs
  have hsub : (chainTxs (regTestNode runSignatures 0) 0 (runBlocks ++ [runSpendBlock, runMoveBlock])).Sublist runTxs := by
    apply chainTxs_sublist_runTxs
    rw [chainTxs_move_eq]
    exact .cons_cons _ (.cons_cons _ (.cons _ (.cons_cons _ (.cons_cons _ (.cons _ .slnil)))))
  have hmem : ∀ t ∈ [(61, emptyCoinbase 61), (61, runMintSpend), (62, emptyCoinbase 62), (62, runMove)],
      t ∈ chainTxs (regTestNode runSignatures 0) 0 (runBlocks ++ [runSpendBlock, runMoveBlock]) := by
    intro t ht
    rw [chainTxs_run, chainTxs_move_eq]
    exact List.mem_append_right _ ht
  have hcreated : CreatedAt runCrypto
      (chainTxs (regTestNode runSignatures 0) 0 (runBlocks ++ [runSpendBlock, runMoveBlock]))
      ⟨runCrypto.txid runMintSpend, 0⟩ runPosition := ⟨(61, runMintSpend), hmem _ (by simp), rfl, rfl⟩
  have hspends : ⟨runCrypto.txid runMintSpend, 0⟩ ∈ txSpends runMove := by
    rw [txSpends_eq, isCoinBase_runMove]
    exact List.mem_singleton_self _
  exact position_descends_from_mint (regTestNode runSignatures 0) ⟨[], ∅⟩ s _ rfl (fun _ _ _ => rfl)
    (connectBlocks_of_acceptBlocks haccept) (runTxs_distinct.sublist hsub)
    (fun t _ hlow => absurd hlow (Nat.not_lt_zero t.1)) (62, runMove) (hmem _ (by simp)) (Nat.zero_le _) _ hspends
    runPosition runLineage (1000 * coin) hcreated (by decide +kernel)

/-- With the rules active from height 62, a block below it may make a position of an invented lineage. -/
def runForgeryBlock : CBlock := nextBlock runCrypto runTip [emptyCoinbase 61, runForgery] (regTestTime 61) 2

def runForgedMoveBlock : CBlock :=
  nextBlock runCrypto (uint256S 0xf97ebd0d5d86f10680a07a1f73fcbe95ef052ed190a0eec610508f4e6234c8f0)
    [emptyCoinbase 62, runForgedMove] (regTestTime 62) 0

example : runForgedMoveBlock.vtx.map (·.vout.length) = [1, 1] := by decide +kernel

theorem chainTxs_forgery_eq : chainTxs (regTestNode runSignatures 62) 61 [runForgeryBlock, runForgedMoveBlock] =
    [(61, emptyCoinbase 61), (61, runForgery), (62, emptyCoinbase 62), (62, runForgedMove)] := by
  decide +kernel

/-- The rules do not disown a position made before they applied. -/
theorem position_descends_from_mint_fails : ∃ blocks s,
    connectBlocks (regTestNode runSignatures 62) ⟨[], ∅⟩ blocks = .ok s ∧
      DistinctTxids runCrypto (chainTxs (regTestNode runSignatures 62) 0 blocks) ∧
      CollisionFree runCrypto (chainTxs (regTestNode runSignatures 62) 0 blocks) ∧
      ∃ t ∈ chainTxs (regTestNode runSignatures 62) 0 blocks, 62 ≤ t.1 ∧ ∃ q ∈ txSpends t.2, ∃ out key v,
        CreatedAt runCrypto (chainTxs (regTestNode runSignatures 62) 0 blocks) q out ∧
        transferPosition? out = some (key, v) ∧
        ¬ ∃ p mint, SpentMint runCrypto (chainTxs (regTestNode runSignatures 62) 0 blocks) key p mint := by
  have heval : (acceptBlocks (regTestNode runSignatures 62) runState [runForgeryBlock, runForgedMoveBlock]).toOption.isSome =
      true := by
    decide +kernel
  obtain ⟨s, hs⟩ := Option.isSome_iff_exists.mp heval
  have hsub : (chainTxs (regTestNode runSignatures 62) 0 (runBlocks ++ [runForgeryBlock, runForgedMoveBlock])).Sublist
      runTxs := by
    apply chainTxs_sublist_runTxs
    rw [chainTxs_forgery_eq]
    exact .cons_cons _ (.cons _ (.cons_cons _ (.cons_cons _ (.cons _ (.cons_cons _ .slnil)))))
  have hspends : ⟨runCrypto.txid runForgery, 0⟩ ∈ txSpends runForgedMove := by
    rw [txSpends_eq, isCoinBase_runForgedMove]
    exact List.mem_singleton_self _
  have hmem : ∀ t ∈ [(61, emptyCoinbase 61), (61, runForgery), (62, emptyCoinbase 62), (62, runForgedMove)],
      t ∈ chainTxs (regTestNode runSignatures 62) 0 (runBlocks ++ [runForgeryBlock, runForgedMoveBlock]) := by
    intro t ht
    rw [chainTxs_run, chainTxs_forgery_eq]
    exact List.mem_append_right _ ht
  refine ⟨runBlocks ++ [runForgeryBlock, runForgedMoveBlock], s, ?_, runTxs_distinct.sublist hsub,
    runTxs_collisionFree.subset (hsub.map _).subset, (62, runForgedMove), hmem _ (by simp), le_refl _,
    _, hspends, ⟨100000000000, uapScript ⟨mintKey, 5, List.replicate 32 0, false⟩⟩, (5, List.replicate 32 0), 1000 * coin,
    ⟨(61, runForgery), hmem _ (by simp), rfl, rfl⟩, by decide +kernel, ?_⟩
  · apply connectBlocks_of_acceptBlocks
    rw [acceptBlocks_run]
    exact toOption_eq_some.mp hs
  · -- no output of the chain has the origin zero
    rintro ⟨p, mint, hmint⟩
    apply (List.nodup_cons.mp runTxs_origins).1
    obtain ⟨t, ht, htxid, hout⟩ := hmint.created
    have hcreated : CreatedAt runCrypto runTxs p mint := ⟨t, hsub.subset ht, htxid, hout⟩
    refine List.mem_map.mpr ⟨p, hcreated.mem_outpoints, ?_⟩
    rw [hmint.origin]
    decide

end Whippet.Validation
