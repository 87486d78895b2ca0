import Whippet.Validation.UapLedger

/-! Blocks built on a tip, and the chains of the regression test network that are mined from them. -/
namespace Whippet.Validation
open Lib Primitives Script Consensus

/-- A block of these transactions on top of `hashPrevBlock`, without merge mining. -/
def nextBlock (crypto : Crypto) (hashPrevBlock : Uint256) (vtx : List CTransaction) (nTime nNonce : UInt32) : CBlock where
  nVersion := 0x00620004
  hashPrevBlock := hashPrevBlock
  hashMerkleRoot := (computeMerkleRoot crypto (vtx.map crypto.txid)).1
  nTime := nTime
  nBits := 0x207fffff
  nNonce := nNonce
  auxpow := []
  vtx := vtx

/-- A coinbase that a miner may put into a block of its own. -/
structure MinerCoinbase (tx : CTransaction) : Prop where
  isCoinBase : tx.isCoinBase = true
  checked : checkTransaction tx true = .ok ()
  final : tx.nLockTime = 0
  noWitness : tx.hasWitness = false
  sigOps : getLegacySigOpCount tx ≤ 100
  size : (tx.serialize false).length ≤ 10000
  noTransfer : tx.vout.any isTransferOutput = false
  value : ∃ nValueOut ≤ 250000 * coin, getValueOut? tx = some nValueOut

/-- A node of the regression test network before its first versionbits period ends. The signatures are those
its run verifies, and every header of the run meets the target. -/
def regTestNode (signatures : List (Bytes × Bytes × Bytes)) (uapMintHeight : ℕ) : Node where
  crypto := Crypto.recorded signatures
  params := regTestParams.updateUAPMintHeight uapMintHeight
  checkAuxPowProofOfWork _ _ := true
  csvActive _ := false
  segwitActive _ := false
  fScriptChecks _ _ := true
  generateMTRandom _ _ := 0

section
variable {signatures : List (Bytes × Bytes × Bytes)} {uapMintHeight : ℕ} {s : ChainState} {tx : CTransaction}
  {p : Uint256} {nTime nNonce : UInt32}

theorem serialize_of_noWitness (h : tx.hasWitness = false) (allowWitness : Bool) :
    tx.serialize allowWitness = tx.serialize false := by
  simp [CTransaction.serialize, h]

theorem serializePure_length (header : CBlockHeader) : header.serializePure.length = 80 := by
  simp [CBlockHeader.serializePure, writeInt32, writeUInt32, leBytes_length, Uint256.size_eq]

theorem serialize_nextBlock_length (crypto : Crypto) (p : Uint256) (nTime nNonce : UInt32) (h : MinerCoinbase tx)
    (allowWitness : Bool) :
    ((nextBlock crypto p [tx] nTime nNonce).serialize allowWitness).length ≤ 10081 := by
  have hsize := h.size
  simp only [CBlock.serialize, List.length_append, serializePure_length, nextBlock, writeVector, List.flatMap_cons,
    List.flatMap_nil, serialize_of_noWitness h.noWitness, writeCompactSize]
  simp
  omega

theorem getConsensus_regTest (uapMintHeight nHeight : ℕ) :
    let params := (regTestParams.updateUAPMintHeight uapMintHeight).getConsensus nHeight
    params.bip34Height = 100000000 ∧ params.nSubsidyHalvingInterval = 150 ∧ params.fSimplifiedRewards = true := by
  apply ParamsTree.getConsensus_of_all (P := fun params => params.bip34Height = 100000000 ∧
    params.nSubsidyHalvingInterval = 150 ∧ params.fSimplifiedRewards = true)
  · exact ⟨⟨rfl, rfl, rfl⟩, ⟨⟨rfl, rfl, rfl⟩, trivial, trivial⟩, ⟨rfl, rfl, rfl⟩, trivial, ⟨rfl, rfl, rfl⟩,
      trivial, trivial⟩
  · exact ⟨rfl, rfl, rfl⟩

theorem checkBlock_coinbase (h : MinerCoinbase tx) (nHeight : ℕ) :
    checkBlock (regTestNode signatures uapMintHeight)
      (nextBlock (Crypto.recorded signatures) p [tx] nTime nNonce) true true nHeight = .ok () := by
  have hsize := serialize_nextBlock_length (Crypto.recorded signatures) p nTime nNonce h false
  have hmoney : ¬ (([tx] : List CTransaction) = [] ∨ [tx].length > maxBlockBaseSize ∨
      ((nextBlock (Crypto.recorded signatures) p [tx] nTime nNonce).serialize false).length > maxBlockBaseSize) := by
    simp [maxBlockBaseSize]
    omega
  simp only [checkBlock, bind_eq_ok, failIf_eq_ok]
  refine ⟨⟨⟩, by simp [regTestNode], ⟨⟩, ?_, ⟨⟩, ?_, ?_⟩
  · simp [blockMerkleRoot, nextBlock, regTestNode]
  · simp [blockMerkleRoot, nextBlock, computeMerkleRoot, merkleAdd]
  · simp only [checkBlockContents, bind_eq_ok, failIf_eq_ok, forM_eq_ok]
    refine ⟨⟨⟩, hmoney, ⟨⟩, by simp [nextBlock, h.isCoinBase], ⟨⟩, by simp [nextBlock], ⟨⟩, ?_, ?_⟩
    · simpa [nextBlock] using h.checked
    · have hsigOps := h.sigOps
      simp only [nextBlock, List.map_singleton, List.sum_singleton, maxBlockSigOpsCost, witnessScaleFactor]
      omega

theorem contextualCheckBlock_coinbase (h : MinerCoinbase tx) (hlt : s.nextHeight < 150) :
    contextualCheckBlock (regTestNode signatures uapMintHeight) s.chain
      (nextBlock (Crypto.recorded signatures) p [tx] nTime nNonce) = .ok () := by
  have hbip34 := (getConsensus_regTest uapMintHeight s.chain.length).1
  have hbase := serialize_nextBlock_length (Crypto.recorded signatures) p nTime nNonce h false
  have htotal := serialize_nextBlock_length (Crypto.recorded signatures) p nTime nNonce h true
  simp only [ChainState.nextHeight] at hlt
  simp only [contextualCheckBlock, bind_eq_ok, failIf_eq_ok, forM_eq_ok]
  refine ⟨⟨⟩, by simp [nextBlock, isFinalTx, h.final], ⟨⟩, ?_, false, ?_, ⟨⟩, by simp [nextBlock, h.noWitness], ?_⟩
  · change ¬ (s.chain.length ≥ ((regTestParams.updateUAPMintHeight uapMintHeight).getConsensus _).bip34Height ∧ _)
    rw [hbip34]
    omega
  · simp [checkWitnessCommitment, regTestNode]
  · simp only [getBlockWeight, maxBlockWeight, witnessScaleFactor]
    omega

theorem getWhippetBlockSubsidy_regTest (uapMintHeight : ℕ) (generateMTRandom : ℕ → ℤ → ℤ) (prevHash : Uint256)
    {nHeight : ℕ} (hlt : nHeight < 150) :
    getWhippetBlockSubsidy generateMTRandom nHeight
      ((regTestParams.updateUAPMintHeight uapMintHeight).getConsensus nHeight) prevHash = 500000 * coin := by
  obtain ⟨-, hinterval, hsimplified⟩ := getConsensus_regTest uapMintHeight nHeight
  have hhalvings : nHeight / 150 = 0 := by omega
  simp [getWhippetBlockSubsidy, hinterval, hsimplified, hhalvings, show nHeight < 4500 by omega]

theorem connectTx_coinbase (h : MinerCoinbase tx) (fScriptChecks : Bool) :
    connectTx (regTestNode signatures uapMintHeight) s.chain fScriptChecks ⟨s.coins, 0, 0, []⟩ tx =
      .ok ⟨s.coins.setCoins ((Crypto.recorded signatures).txid tx) (CCoins.fromTx tx s.nextHeight), 0,
        getLegacySigOpCount tx * witnessScaleFactor, [[]]⟩ := by
  have hsigOps := h.sigOps
  have hcreation : checkUapOutputCreation (Crypto.recorded signatures) tx s.coins = .ok () := by
    simp [checkUapOutputCreation, h.noTransfer]
  have hupdate : updateCoins? (Crypto.recorded signatures) tx s.coins s.chain.length =
      some (s.coins.setCoins ((Crypto.recorded signatures).txid tx) (CCoins.fromTx tx s.chain.length), []) := by
    simp [updateCoins?, h.isCoinBase, spendInputs?]
  simp only [connectTx, checkSpends, getTransactionSigOpCost, txFee, checkInputs, h.isCoinBase, if_true, zero_add,
    bind_eq_ok, failIf_eq_ok, orFail_eq_ok]
  refine ⟨⟨⟩, trivial, ⟨⟩, ?_, ⟨⟩, ?_, 0, rfl, ⟨⟩, trivial, _, hupdate, rfl⟩
  · simp only [maxBlockSigOpsCost, witnessScaleFactor]
    omega
  · split_ifs
    · exact hcreation
    · rfl

theorem connectTxs_coinbase (h : MinerCoinbase tx) (hpos : 1 ≤ s.nextHeight) (hlt : s.nextHeight < 150)
    (hnew : s.coins.lookup ((Crypto.recorded signatures).txid tx) = none) :
    connectTxs (regTestNode signatures uapMintHeight) s (nextBlock (Crypto.recorded signatures) p [tx] nTime nNonce) =
      .ok ⟨s.coins.setCoins ((Crypto.recorded signatures).txid tx) (CCoins.fromTx tx s.nextHeight), 0,
        getLegacySigOpCount tx * witnessScaleFactor, [[]]⟩ := by
  have hchain : s.chain ≠ [] := List.length_pos_iff.mp hpos
  obtain ⟨nValueOut, hle, hvalue⟩ := h.value
  have hsubsidy := getWhippetBlockSubsidy_regTest uapMintHeight (fun _ _ => 0) s.bestBlock hlt
  simp only [connectTxs, bind_eq_ok, failIf_eq_ok, orFail_eq_ok]
  refine ⟨⟨⟩, hchain, ⟨⟩, ?_, _, ?_, tx, rfl, nValueOut, hvalue, ⟨⟩, ?_, rfl⟩
  · simp [nextBlock, regTestNode, hnew]
  · simp only [nextBlock, List.foldlM_cons, List.foldlM_nil, connectTx_coinbase h, ok_bind]
    rfl
  · change ¬ nValueOut > 0 + getWhippetBlockSubsidy (fun _ _ => 0) s.nextHeight
      ((regTestParams.updateUAPMintHeight uapMintHeight).getConsensus s.nextHeight) s.bestBlock
    rw [hsubsidy]
    unfold coin at *
    omega

theorem acceptBlocks_coinbase (signatures : List (Bytes × Bytes × Bytes)) (uapMintHeight : ℕ) (nTime nNonce : UInt32)
    (blocks : List CBlock) (h : MinerCoinbase tx) (hpos : 1 ≤ s.nextHeight) (hlt : s.nextHeight < 150)
    (hnew : s.coins.lookup ((Crypto.recorded signatures).txid tx) = none) :
    let block := nextBlock (Crypto.recorded signatures) s.bestBlock [tx] nTime nNonce
    acceptBlocks (regTestNode signatures uapMintHeight) s (block :: blocks) =
      acceptBlocks (regTestNode signatures uapMintHeight)
        ⟨s.chain ++ [(Crypto.recorded signatures).blockIndex block.toCBlockHeader],
          if isGenesis (regTestNode signatures uapMintHeight) block then s.coins
          else s.coins.setCoins ((Crypto.recorded signatures).txid tx) (CCoins.fromTx tx s.nextHeight)⟩ blocks := by
  intro block
  have hcheck : checkBlock (regTestNode signatures uapMintHeight) block true true s.nextHeight = .ok () :=
    checkBlock_coinbase h s.nextHeight
  have htxs : connectTxs (regTestNode signatures uapMintHeight) s block = .ok _ := connectTxs_coinbase h hpos hlt hnew
  have hconnect := connect_of_connectTxs hcheck rfl htxs
  exact acceptBlocks_cons (contextualCheckBlock_coinbase h hlt) hconnect

def emptyCoinbase (nHeight : ℕ) : CTransaction where
  nVersion := 1
  vin := [⟨⟨Uint256.zero, 0xffffffff⟩, pushInt64 nHeight ++ [op0], CTxIn.sequenceFinal, []⟩]
  vout := [⟨0, [opReturn]⟩]
  nLockTime := 0

def regTestTime (nHeight : ℕ) : UInt32 := 1767254400 + UInt32.ofNat nHeight

def emptyBlocks (crypto : Crypto) : List UInt32 → ℕ → Uint256 → List CBlock
  | [], _, _ => []
  | nNonce :: nonces, nHeight, p =>
    let block := nextBlock crypto p [emptyCoinbase nHeight] (regTestTime nHeight) nNonce
    block :: emptyBlocks crypto nonces (nHeight + 1) (crypto.blockHash block.toCBlockHeader)

theorem length_emptyBlocks (crypto : Crypto) (nonces : List UInt32) (nHeight : ℕ) (p : Uint256) :
    (emptyBlocks crypto nonces nHeight p).length = nonces.length := by
  induction nonces generalizing nHeight p with
  | nil => rfl
  | cons nNonce nonces ih => rw [emptyBlocks, List.length_cons, List.length_cons, ih]

theorem minerCoinbase_empty {nHeight : ℕ} (hlt : nHeight < 100) : MinerCoinbase (emptyCoinbase nHeight) := by
  have hchecks : ∀ n < 100, checkTransaction (emptyCoinbase n) true = .ok () ∧
      getLegacySigOpCount (emptyCoinbase n) ≤ 100 ∧ ((emptyCoinbase n).serialize false).length ≤ 10000 := by
    decide +kernel
  obtain ⟨hchecked, hsigOps, hsize⟩ := hchecks nHeight hlt
  exact ⟨rfl, hchecked, rfl, rfl, hsigOps, hsize, rfl, 0, by decide, rfl⟩

theorem isGenesis_regTest (signatures : List (Bytes × Bytes × Bytes)) (uapMintHeight : ℕ) (block : CBlock) :
    isGenesis (regTestNode signatures uapMintHeight) block =
      decide ((Crypto.recorded signatures).blockHash block.toCBlockHeader = RegTestParams.consensus.hashGenesisBlock) :=
  rfl

theorem nextHeight_append (s : ChainState) (index : CBlockIndex) (coins : CCoinsView) :
    ChainState.nextHeight ⟨s.chain ++ [index], coins⟩ = s.nextHeight + 1 := by
  simp [ChainState.nextHeight]

theorem bestBlock_append (chain : List CBlockIndex) (index : CBlockIndex) (coins : CCoinsView) :
    ChainState.bestBlock ⟨chain ++ [index], coins⟩ = index.hash := by
  simp [ChainState.bestBlock]

theorem setCoins_of_isPruned {view : CCoinsView} {txid : Uint256} {coins : CCoins} (hpruned : coins.isPruned = true)
    (hnew : view.lookup txid = none) : view.setCoins txid coins = view := by
  apply Finmap.ext_lookup
  intro h
  rw [CCoinsView.lookup_setCoins, if_pos hpruned]
  split_ifs with heq
  · rw [heq, hnew]
  · rfl

theorem acceptBlocks_empty (signatures : List (Bytes × Bytes × Bytes)) (uapMintHeight : ℕ) (nonces : List UInt32)
    (hpos : 1 ≤ s.nextHeight) (hlt : s.nextHeight + nonces.length ≤ 100)
    (hnew : ∀ n, s.nextHeight ≤ n → n < s.nextHeight + nonces.length →
      s.coins.lookup ((Crypto.recorded signatures).txid (emptyCoinbase n)) = none) :
    let blocks := emptyBlocks (Crypto.recorded signatures) nonces s.nextHeight s.bestBlock
    acceptBlocks (regTestNode signatures uapMintHeight) s blocks =
      .ok ⟨s.chain ++ blocks.map fun block => (Crypto.recorded signatures).blockIndex block.toCBlockHeader, s.coins⟩ := by
  induction nonces generalizing s with
  | nil => simp [emptyBlocks, acceptBlocks, pure, Except.pure]
  | cons nNonce nonces ih =>
    intro blocks
    rw [List.length_cons] at hlt hnew
    have htx := minerCoinbase_empty (show s.nextHeight < 100 by omega)
    have hfresh := hnew s.nextHeight (le_refl _) (by omega)
    have hcoins : s.coins.setCoins ((Crypto.recorded signatures).txid (emptyCoinbase s.nextHeight))
        (CCoins.fromTx (emptyCoinbase s.nextHeight) s.nextHeight) = s.coins := setCoins_of_isPruned rfl hfresh
    have hstep := acceptBlocks_coinbase signatures uapMintHeight (regTestTime s.nextHeight) nNonce blocks.tail htx hpos
      (by omega) hfresh
    simp only [hcoins, ite_self] at hstep
    refine hstep.trans ?_
    -- the rest of the chain is built on the block's hash
    have hrest := ih (s := ⟨s.chain ++ [(Crypto.recorded signatures).blockIndex (nextBlock (Crypto.recorded signatures)
      s.bestBlock [emptyCoinbase s.nextHeight] (regTestTime s.nextHeight) nNonce).toCBlockHeader], s.coins⟩)
    rw [nextHeight_append, bestBlock_append] at hrest
    simp only [List.append_assoc, List.singleton_append] at hrest
    apply hrest
    · omega
    · omega
    · intro n hn hlt'
      exact hnew n (by omega) (by omega)

theorem regTestGenesis_recorded (signatures : List (Bytes × Bytes × Bytes)) :
    regTestGenesis (Crypto.recorded signatures) = regTestGenesis (Crypto.recorded []) :=
  rfl

theorem isGenesis_regTestGenesis (signatures : List (Bytes × Bytes × Bytes)) (uapMintHeight : ℕ) :
    isGenesis (regTestNode signatures uapMintHeight) (regTestGenesis (Crypto.recorded signatures)) = true := by
  rw [isGenesis_regTest, regTestGenesis_recorded]
  change decide ((Crypto.recorded []).blockHash _ = _) = true
  decide +kernel

theorem acceptBlocks_genesis (signatures : List (Bytes × Bytes × Bytes)) (uapMintHeight : ℕ) (blocks : List CBlock) :
    let genesis := regTestGenesis (Crypto.recorded signatures)
    acceptBlocks (regTestNode signatures uapMintHeight) ⟨[], ∅⟩ (genesis :: blocks) =
      acceptBlocks (regTestNode signatures uapMintHeight)
        ⟨[(Crypto.recorded signatures).blockIndex genesis.toCBlockHeader], ∅⟩ blocks := by
  intro genesis
  -- the activation height and the signatures play no part in the checks of the genesis block
  have hcontext : contextualCheckBlock (regTestNode signatures uapMintHeight) [] genesis = .ok () := by
    change contextualCheckBlock (regTestNode [] 0) [] (regTestGenesis (Crypto.recorded [])) = .ok ()
    decide +kernel
  have hcheck : checkBlock (regTestNode signatures uapMintHeight) genesis true true 0 = .ok () := by
    change checkBlock (regTestNode [] 0) (regTestGenesis (Crypto.recorded [])) true true 0 = .ok ()
    decide +kernel
  exact acceptBlocks_cons hcontext
    (connect_of_isGenesis (s := ⟨[], ∅⟩) hcheck rfl (isGenesis_regTestGenesis signatures uapMintHeight))

def minedBlocks (crypto : Crypto) (tx : CTransaction) (nNonce : UInt32) (nonces : List UInt32) : List CBlock :=
  let first := nextBlock crypto RegTestParams.consensus.hashGenesisBlock [tx] (regTestTime 1) nNonce
  regTestGenesis crypto :: first :: emptyBlocks crypto nonces 2 (crypto.blockHash first.toCBlockHeader)

theorem acceptBlocks_mined (signatures : List (Bytes × Bytes × Bytes)) (uapMintHeight : ℕ) (nNonce : UInt32)
    (nonces : List UInt32) (blocks : List CBlock) (h : MinerCoinbase tx) (hlen : nonces.length ≤ 98)
    (hfirst : isGenesis (regTestNode signatures uapMintHeight) (nextBlock (Crypto.recorded signatures)
      RegTestParams.consensus.hashGenesisBlock [tx] (regTestTime 1) nNonce) = false)
    (hnew : ∀ n, 2 ≤ n → n < 2 + nonces.length →
      (Crypto.recorded signatures).txid (emptyCoinbase n) ≠ (Crypto.recorded signatures).txid tx) :
    let mined := minedBlocks (Crypto.recorded signatures) tx nNonce nonces
    acceptBlocks (regTestNode signatures uapMintHeight) ⟨[], ∅⟩ (mined ++ blocks) =
      acceptBlocks (regTestNode signatures uapMintHeight)
        ⟨mined.map fun block => (Crypto.recorded signatures).blockIndex block.toCBlockHeader,
          CCoinsView.setCoins ∅ ((Crypto.recorded signatures).txid tx) (CCoins.fromTx tx 1)⟩ blocks := by
  intro mined
  have hbest : ChainState.bestBlock
      ⟨[(Crypto.recorded signatures).blockIndex (regTestGenesis (Crypto.recorded signatures)).toCBlockHeader], ∅⟩ =
      RegTestParams.consensus.hashGenesisBlock :=
    of_decide_eq_true (isGenesis_regTestGenesis signatures uapMintHeight)
  have hstep := acceptBlocks_coinbase signatures uapMintHeight (regTestTime 1) nNonce (mined.drop 2 ++ blocks)
    (s := ⟨[(Crypto.recorded signatures).blockIndex (regTestGenesis (Crypto.recorded signatures)).toCBlockHeader], ∅⟩)
    h (by simp [ChainState.nextHeight]) (by simp [ChainState.nextHeight]) (Finmap.lookup_empty _)
  rw [hbest] at hstep
  dsimp only at hstep
  rw [hfirst, if_neg Bool.false_ne_true] at hstep
  refine (acceptBlocks_genesis signatures uapMintHeight _).trans (hstep.trans ?_)
  rw [acceptBlocks, List.foldlM_append]
  refine congrArg (· >>= _) (acceptBlocks_empty signatures uapMintHeight nonces (s := ⟨_, _⟩) ?_ ?_ ?_)
  · simp [ChainState.nextHeight]
  · simp only [ChainState.nextHeight, List.length_append, List.length_singleton]
    omega
  · intro n hn hlt
    have hne := hnew n hn hlt
    rw [CCoinsView.lookup_setCoins, if_neg hne]
    exact Finmap.lookup_empty _

theorem chainTxs_empty_sublist (node : Node) (crypto : Crypto) (nonces : List UInt32) (nHeight : ℕ) (p : Uint256) :
    (chainTxs node nHeight (emptyBlocks crypto nonces nHeight p)).Sublist
      ((List.range' nHeight nonces.length).map fun n => (n, emptyCoinbase n)) := by
  induction nonces generalizing nHeight p with
  | nil => exact List.Sublist.refl _
  | cons nNonce nonces ih =>
    rw [emptyBlocks, chainTxs, List.length_cons, List.range'_succ, List.map_cons]
    exact (blockTxs_sublist node nHeight _).append (ih _ _)

end

def runMintSig : Bytes :=
  beBytes 70 0x304402203ef2996ee471f34c5697a395ec604d59b2c7ff6d29c1ccaf5f91e1666e94a57e0220288488a4e4ada243e948a6c328475efb850a3d30774268d27caba8ca452b5c38

def runMoveSig : Bytes :=
  beBytes 70 0x304402201518ba70a1298aef85c87415df08899f9e6826f0437f26c225c5f907be2b8af402202a55918569f8708906fb7d775fb521e7400de5d14188b0e46d62b0d2dc5d73d1

def runForgedSig : Bytes :=
  beBytes 70 0x30440220601730d0c7bb743180201988f348132195b5b8c519dc9db93c8927a3b0a918a50220176ed3e0776717a3e5f443a218559c2f11bd7c92250b3c6a3a10b672a5421013

def runSignatures : List (Bytes × Bytes × Bytes) :=
  [(mintKey, beBytes 32 0x78d5ea632b7e91ac2fbdd8514c255541c40888a40e5e95cdf86e747c60c9e588, runMintSig),
    (mintKey, beBytes 32 0xb247782347268848f02f5931e4c0be8dd785ff9e902d300d2d1f11569821da15, runMoveSig),
    (mintKey, beBytes 32 0xa350df682890aca45bfe437f87bf3c97a583e0ebcfc09f7d09a6a0be9e3b3cf4, runForgedSig)]

def runCrypto : Crypto := Crypto.recorded runSignatures

/-- The first coinbase of the runs: a mint of a thousand coins and as many that anyone may spend. -/
def firstCoinbase : CTransaction where
  nVersion := 1
  vin := [⟨⟨Uint256.zero, 0xffffffff⟩, pushInt64 1 ++ [op0], CTxIn.sequenceFinal, []⟩]
  vout := [⟨100000000000, uapScript ⟨mintKey, 5, [], true⟩⟩, ⟨100000000000, [op1]⟩]
  nLockTime := 0

def firstBlock : CBlock :=
  nextBlock runCrypto RegTestParams.consensus.hashGenesisBlock [firstCoinbase] (regTestTime 1) 0

def runNonces : List UInt32 :=
  [2, 1, 3, 3, 1, 3, 0, 0, 0, 0, 1, 0, 0, 0, 0, 0, 1, 0, 0, 6, 1, 1, 1, 2, 3, 6, 0, 1, 2, 0, 0, 0, 0, 0, 0, 2, 1, 0,
    3, 0, 2, 0, 7, 0, 0, 1, 0, 1, 7, 0, 4, 0, 0, 2, 1, 0, 0, 3, 0]

def runBlocks : List CBlock :=
  regTestGenesis runCrypto :: firstBlock :: emptyBlocks runCrypto runNonces 2 (runCrypto.blockHash firstBlock.toCBlockHeader)

def runCoins : CCoinsView := Finmap.singleton (runCrypto.txid firstCoinbase) (CCoins.fromTx firstCoinbase 1)

def runTip : Uint256 := uint256S 0x5a0a0ce243fc9eb278089c3573b84a8e53495332d14f6bb200ad808fab31171e

def runLineage : UapLineage := (5, uapOriginFromOutpoint runCrypto ⟨runCrypto.txid firstCoinbase, 0⟩)

def runPosition : CTxOut := ⟨100000000000, uapScript ⟨mintKey, 5, runLineage.2, false⟩⟩

def runMintSpend : CTransaction where
  nVersion := 1
  vin := [⟨⟨runCrypto.txid firstCoinbase, 0⟩, pushData (runMintSig ++ [1]), CTxIn.sequenceFinal, []⟩,
    ⟨⟨runCrypto.txid firstCoinbase, 1⟩, [], CTxIn.sequenceFinal, []⟩]
  vout := [runPosition]
  nLockTime := 0

def runMove : CTransaction where
  nVersion := 1
  vin := [⟨⟨runCrypto.txid runMintSpend, 0⟩, pushData (runMoveSig ++ [1]), CTxIn.sequenceFinal, []⟩]
  vout := [runPosition]
  nLockTime := 0

def runForgery : CTransaction where
  nVersion := 1
  vin := [⟨⟨runCrypto.txid firstCoinbase, 1⟩, [], CTxIn.sequenceFinal, []⟩]
  vout := [⟨100000000000, uapScript ⟨mintKey, 5, List.replicate 32 0, false⟩⟩]
  nLockTime := 0

def runForgedMove : CTransaction where
  nVersion := 1
  vin := [⟨⟨runCrypto.txid runForgery, 0⟩, pushData (runForgedSig ++ [1]), CTxIn.sequenceFinal, []⟩]
  vout := [⟨100000000000, uapScript ⟨mintKey, 5, List.replicate 32 0, false⟩⟩]
  nLockTime := 0

def runSpendBlock : CBlock := nextBlock runCrypto runTip [emptyCoinbase 61, runMintSpend] (regTestTime 61) 1

def runSpendHash : Uint256 := uint256S 0x5387db112043f3c9835090dd222f79396f05f967b0663db0de1aa19f5537d513

def runMoveBlock : CBlock := nextBlock runCrypto runSpendHash [emptyCoinbase 62, runMove] (regTestTime 62) 1

def runTxs : List (ℕ × CTransaction) :=
  (1, firstCoinbase) :: (List.range' 2 60).map (fun n => (n, emptyCoinbase n)) ++
    [(61, runMintSpend), (61, runForgery), (62, emptyCoinbase 62), (62, runMove), (62, runForgedMove)]

def runState : ChainState :=
  ⟨runBlocks.dropLast.map (fun block => runCrypto.blockIndex block.toCBlockHeader) ++
    [⟨runTip, 0x00620004, regTestTime 60⟩], runCoins⟩

theorem runTip_eq : (runBlocks.getLast?.map fun block => runCrypto.blockIndex block.toCBlockHeader) =
    some ⟨runTip, 0x00620004, regTestTime 60⟩ := by
  decide +kernel

example : runBlocks.length = 61 := by decide +kernel

theorem runHistory_origins :
    (0 :: originNumbers runCrypto ((regTestGenesis runCrypto).vtx ++ runTxs.map Prod.snd)).Nodup := by
  decide +kernel

example : (originNumbers runCrypto (regTestGenesis runCrypto).vtx).length = 1 := by decide +kernel

theorem runTxs_origins : (0 :: originNumbers runCrypto (runTxs.map Prod.snd)).Nodup := by
  refine runHistory_origins.sublist (List.Sublist.cons_cons 0 ?_)
  rw [originNumbers, originNumbers, List.flatMap_append, List.map_append]
  exact List.sublist_append_right _ _

theorem runTxs_distinct : DistinctTxids runCrypto runTxs :=
  distinctTxids_of_nodup (List.nodup_cons.mp runTxs_origins).2 (by decide +kernel)

theorem runTxs_collisionFree : CollisionFree runCrypto runTxs :=
  collisionFree_of_nodup (List.nodup_cons.mp runTxs_origins).2

theorem txid_emptyCoinbase_ne {n : ℕ} (hn : 2 ≤ n) (hlt : n < 61) :
    runCrypto.txid (emptyCoinbase n) ≠ runCrypto.txid firstCoinbase := by
  intro htxid
  have hdistinct := runTxs_distinct
  rw [DistinctTxids, runTxs, List.cons_append, List.map_cons, List.nodup_cons] at hdistinct
  apply hdistinct.1
  rw [← htxid, List.map_append, List.map_map]
  apply List.mem_append_left
  exact List.mem_map.mpr ⟨n, List.mem_range'_1.mpr ⟨hn, by omega⟩, rfl⟩

theorem isGenesis_firstBlock (uapMintHeight : ℕ) :
    isGenesis (regTestNode runSignatures uapMintHeight) firstBlock = false := by
  rw [isGenesis_regTest]
  decide +kernel

theorem minerCoinbase_first : MinerCoinbase firstCoinbase :=
  ⟨rfl, by decide +kernel, rfl, rfl, by decide +kernel, by decide +kernel, by decide +kernel, 2000 * coin,
    by decide, by decide +kernel⟩

theorem runState_chain : runState.chain = runBlocks.map fun block => runCrypto.blockIndex block.toCBlockHeader := by
  have htip := runTip_eq
  obtain ⟨last, hlast, hindex⟩ := Option.map_eq_some_iff.mp htip
  conv_rhs => rw [← List.dropLast_append_getLast? last hlast, List.map_append, List.map_singleton, hindex]
  rfl

theorem acceptBlocks_run (uapMintHeight : ℕ) (blocks : List CBlock) :
    acceptBlocks (regTestNode runSignatures uapMintHeight) ⟨[], ∅⟩ (runBlocks ++ blocks) =
      acceptBlocks (regTestNode runSignatures uapMintHeight) runState blocks := by
  have hcoins : CCoinsView.setCoins ∅ (runCrypto.txid firstCoinbase) (CCoins.fromTx firstCoinbase 1) = runCoins := by
    decide +kernel
  have hstate : runState = ⟨runBlocks.map fun block => runCrypto.blockIndex block.toCBlockHeader, runCoins⟩ := by
    rw [← runState_chain]
    rfl
  rw [hstate, ← hcoins]
  exact acceptBlocks_mined runSignatures uapMintHeight 0 runNonces blocks minerCoinbase_first (by decide)
    (isGenesis_firstBlock uapMintHeight) fun n hn hlt => txid_emptyCoinbase_ne hn hlt

theorem chainTxs_run (uapMintHeight : ℕ) (blocks : List CBlock) :
    chainTxs (regTestNode runSignatures uapMintHeight) 0 (runBlocks ++ blocks) =
      (1, firstCoinbase) :: chainTxs (regTestNode runSignatures uapMintHeight) 2
        (emptyBlocks runCrypto runNonces 2 (runCrypto.blockHash firstBlock.toCBlockHeader)) ++
      chainTxs (regTestNode runSignatures uapMintHeight) 61 blocks := by
  have hgenesis : blockTxs (regTestNode runSignatures uapMintHeight) 0 (regTestGenesis runCrypto) = [] := by
    rw [blockTxs, runCrypto, isGenesis_regTestGenesis, if_pos rfl]
  have hfirst : blockTxs (regTestNode runSignatures uapMintHeight) 1 firstBlock = [(1, firstCoinbase)] := by
    rw [blockTxs, isGenesis_firstBlock, if_neg Bool.false_ne_true, firstBlock, nextBlock, List.map_singleton]
  have hlen : 0 + 1 + 1 + runNonces.length = 61 := by decide
  rw [runBlocks, List.cons_append, List.cons_append, chainTxs, chainTxs, hgenesis, hfirst, chainTxs_append,
    length_emptyBlocks, hlen, List.nil_append, List.singleton_append, List.cons_append]

theorem chainTxs_run_sublist (uapMintHeight : ℕ) (blocks : List CBlock) :
    (chainTxs (regTestNode runSignatures uapMintHeight) 0 (runBlocks ++ blocks)).Sublist
      ((1, firstCoinbase) :: (List.range' 2 59).map (fun n => (n, emptyCoinbase n)) ++
        chainTxs (regTestNode runSignatures uapMintHeight) 61 blocks) := by
  rw [chainTxs_run]
  refine List.Sublist.append ?_ (List.Sublist.refl _)
  exact (chainTxs_empty_sublist _ runCrypto runNonces 2 _).cons_cons _

theorem acceptBlocks_spend : ∃ s, acceptBlocks (regTestNode runSignatures 0) ⟨[], ∅⟩ (runBlocks ++ [runSpendBlock]) = .ok s ∧
    s.coins.output? ⟨runCrypto.txid runMintSpend, 0⟩ = some runPosition := by
  have heval : (acceptBlocks (regTestNode runSignatures 0) runState [runSpendBlock]).map
      (fun s => s.coins.output? ⟨runCrypto.txid runMintSpend, 0⟩) = .ok (some runPosition) := by
    decide +kernel
  rw [acceptBlocks_run]
  cases hrun : acceptBlocks (regTestNode runSignatures 0) runState [runSpendBlock] with
  | error e => simp [hrun, Except.map] at heval
  | ok s => exact ⟨s, rfl, by simpa [hrun, Except.map] using heval⟩

theorem runTxs_eq : runTxs = (1, firstCoinbase) :: (List.range' 2 59).map (fun n => (n, emptyCoinbase n)) ++
    [(61, emptyCoinbase 61), (61, runMintSpend), (61, runForgery), (62, emptyCoinbase 62), (62, runMove),
      (62, runForgedMove)] := by
  have hrange : List.range' 2 60 = List.range' 2 59 ++ [61] := List.range'_concat
  simp only [runTxs, hrange, List.map_append, List.map_singleton, List.cons_append, List.append_assoc, List.nil_append]

example : runTxs.length = 66 := by decide +kernel

theorem chainTxs_sublist_runTxs (uapMintHeight : ℕ) {blocks : List CBlock}
    (h : (chainTxs (regTestNode runSignatures uapMintHeight) 61 blocks).Sublist
      [(61, emptyCoinbase 61), (61, runMintSpend), (61, runForgery), (62, emptyCoinbase 62), (62, runMove),
        (62, runForgedMove)]) :
    (chainTxs (regTestNode runSignatures uapMintHeight) 0 (runBlocks ++ blocks)).Sublist runTxs := by
  rw [runTxs_eq]
  exact (chainTxs_run_sublist uapMintHeight blocks).trans (List.Sublist.append (List.Sublist.refl _) h)

theorem chainTxs_spend_sublist (uapMintHeight : ℕ) :
    (chainTxs (regTestNode runSignatures uapMintHeight) 0 (runBlocks ++ [runSpendBlock])).Sublist runTxs := by
  apply chainTxs_sublist_runTxs
  rw [chainTxs, chainTxs, List.append_nil]
  exact (blockTxs_sublist _ 61 runSpendBlock).trans (List.sublist_append_left _ _)

end Whippet.Validation
