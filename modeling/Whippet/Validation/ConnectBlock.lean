import Whippet.Validation.CheckTx

/-! `CheckBlock`, `ContextualCheckBlock` and `ConnectBlock`. -/
namespace Whippet.Validation
open Lib Primitives Script Consensus

/-- What connecting a block reads besides the chain and the coins. -/
structure Node where
  crypto : Crypto
  params : CChainParams
  /-- `CheckAuxPowProofOfWork` under the parameters of a height. -/
  checkAuxPowProofOfWork : CBlockHeader → ℕ → Bool
  /-- `VersionBitsState` is `THRESHOLD_ACTIVE` for `DEPLOYMENT_CSV` after a chain. -/
  csvActive : List CBlockIndex → Bool
  /-- The same for `DEPLOYMENT_SEGWIT`. -/
  segwitActive : List CBlockIndex → Bool
  /-- Whether a block on top of a chain has its scripts checked; `-assumevalid` turns it off. -/
  fScriptChecks : List CBlockIndex → CBlockHeader → Bool
  generateMTRandom : ℕ → ℤ → ℤ

/-- `chainActive` from the genesis block on, and `pcoinsTip`. -/
structure ChainState where
  chain : List CBlockIndex
  coins : CCoinsView
  deriving DecidableEq

def ChainState.nextHeight (s : ChainState) : ℕ := s.chain.length

def ChainState.bestBlock (s : ChainState) : Uint256 := (s.chain.getLast?.map CBlockIndex.hash).getD Uint256.zero

def sequenceLockTimeMask : ℕ := 0xffff

/-- One iteration of the loop of `CalculateSequenceLocks`, for an input and the height of its coin. -/
def sequenceLock (chain : List CBlockIndex) (lock : ℤ × ℤ) (input : CTxIn × ℕ) : ℤ × ℤ :=
  let nSequence := input.1.nSequence.toNat
  let nCoinHeight := input.2
  if TransactionSignatureChecker.sequenceDisabled nSequence then lock
  else if nSequence &&& TransactionSignatureChecker.sequenceLockTimeTypeFlag ≠ 0 then
    let nCoinTime := getMedianTimePast (chain.take (nCoinHeight - 1 + 1))
    (lock.1, max lock.2 (nCoinTime + ((nSequence &&& sequenceLockTimeMask) <<< 9 : ℕ) - 1))
  else (max lock.1 (nCoinHeight + (nSequence &&& sequenceLockTimeMask : ℕ) - 1), lock.2)

/-- `CalculateSequenceLocks`: the last height and time at which the transaction is still locked. -/
def calculateSequenceLocks (tx : CTransaction) (fVerifySequence : Bool) (prevHeights : List ℕ)
    (chain : List CBlockIndex) : ℤ × ℤ :=
  if tx.nVersion.toUInt32 ≥ 2 ∧ fVerifySequence = true then
    (tx.vin.zip prevHeights).foldl (sequenceLock chain) (-1, -1)
  else (-1, -1)

/-- `SequenceLocks` for a block on top of `chain`. -/
def sequenceLocks (tx : CTransaction) (fVerifySequence : Bool) (prevHeights : List ℕ) (chain : List CBlockIndex) :
    Bool :=
  let lockPair := calculateSequenceLocks tx fVerifySequence prevHeights chain
  ¬ (lockPair.1 ≥ chain.length ∨ lockPair.2 ≥ getMedianTimePast chain)

section
variable (node : Node)

/-- The checks of `CheckBlock` that follow the header, on the transactions and the size of the block. -/
def checkBlockContents (vtx : List CTransaction) (nSize : ℕ) : Except Reject Unit := do
  failIf (vtx = [] ∨ vtx.length > maxBlockBaseSize ∨ nSize > maxBlockBaseSize) (dos 100 "bad-blk-length")
  failIf (vtx.head?.any CTransaction.isCoinBase = false) (dos 100 "bad-cb-missing")
  failIf (vtx.tail.any CTransaction.isCoinBase = true) (dos 100 "bad-cb-multiple")
  vtx.forM fun tx => checkTransaction tx true
  failIf ((vtx.map getLegacySigOpCount).sum * witnessScaleFactor > maxBlockSigOpsCost) (dos 100 "bad-blk-sigops")

/-- `CheckBlock`. The proof of work and the Merkle root are left out for a template. -/
def checkBlock (block : CBlock) (fCheckPOW fCheckMerkleRoot : Bool) (nHeight : ℕ) : Except Reject Unit := do
  failIf (fCheckPOW = true ∧ node.checkAuxPowProofOfWork block.toCBlockHeader nHeight = false) (dos 50 "high-hash")
  failIf (fCheckMerkleRoot = true ∧ block.hashMerkleRoot ≠ (blockMerkleRoot node.crypto block).1)
    { dos 100 "bad-txnmrklroot" with corruptionPossible := true }
  failIf (fCheckMerkleRoot = true ∧ (blockMerkleRoot node.crypto block).2 = true)
    { dos 100 "bad-txns-duplicate" with corruptionPossible := true }
  checkBlockContents block.vtx (block.serialize false).length

/-- Whether an output is a witness commitment, by its size and first bytes. -/
def isWitnessCommitment (out : CTxOut) : Bool :=
  out.scriptPubKey.length ≥ 38 && out.scriptPubKey.take 6 == [opReturn, 0x24, 0xaa, 0x21, 0xa9, 0xed]

/-- The output at `GetWitnessCommitmentIndex`: the last commitment of the coinbase. -/
def getWitnessCommitment? (block : CBlock) : Option CTxOut :=
  block.vtx.head?.bind fun coinbase => (coinbase.vout.filter isWitnessCommitment).getLast?

/-- `BlockWitnessMerkleRoot`. The coinbase has the null hash. -/
def blockWitnessMerkleRoot (block : CBlock) : Uint256 :=
  (computeMerkleRoot node.crypto
    (Uint256.zero :: block.vtx.tail.map fun tx => node.crypto.hash256 (tx.serialize true))).1

/-- `fHaveWitness` of `ContextualCheckBlock`. -/
def checkWitnessCommitment (chain : List CBlockIndex) (block : CBlock) : Except Reject Bool :=
  match if node.segwitActive chain then getWitnessCommitment? block else none with
  | none => .ok false
  | some out =>
    match (block.vtx.head?.bind fun coinbase => coinbase.vin.head?).map CTxIn.scriptWitness with
    | some [nonce] =>
      if nonce.length ≠ 32 then .error { dos 100 "bad-witness-nonce-size" with corruptionPossible := true }
      else if (node.crypto.hash256 ((blockWitnessMerkleRoot node block).bytes ++ nonce)).bytes ≠
          (out.scriptPubKey.drop 6).take 32 then
        .error { dos 100 "bad-witness-merkle-match" with corruptionPossible := true }
      else .ok true
    | _ => .error { dos 100 "bad-witness-nonce-size" with corruptionPossible := true }

/-- Whether the coinbase starts with the serialised height. -/
def hasCoinbaseHeight (block : CBlock) (nHeight : ℕ) : Bool :=
  (block.vtx.head?.bind fun coinbase => coinbase.vin.head?).any fun txin =>
    (pushInt64 nHeight).isPrefixOf txin.scriptSig

def getBlockWeight (block : CBlock) : ℕ :=
  (block.serialize false).length * (witnessScaleFactor - 1) + (block.serialize true).length

def maxBlockWeight : ℕ := 4000000

/-- `ContextualCheckBlock`, which a block passes when it is accepted, before it can be connected. -/
def contextualCheckBlock (chain : List CBlockIndex) (block : CBlock) : Except Reject Unit := do
  let nLockTimeCutoff := if node.csvActive chain then getMedianTimePast chain else block.nTime.toNat
  block.vtx.forM fun tx =>
    failIf (isFinalTx tx chain.length nLockTimeCutoff = false) (dos 10 "bad-txns-nonfinal")
  failIf (chain.length ≥ (node.params.getConsensus chain.length).bip34Height ∧
      hasCoinbaseHeight block chain.length = false) (dos 100 "bad-cb-height")
  let fHaveWitness ← checkWitnessCommitment node chain block
  failIf (fHaveWitness = false ∧ block.vtx.any CTransaction.hasWitness = true)
    { dos 100 "unexpected-witness" with corruptionPossible := true }
  failIf (getBlockWeight block > maxBlockWeight) (dos 100 "bad-blk-weight")

/-- `fEnforceBIP30`: not on the one chain whose block at `BIP34Height` is known. -/
def enforceBIP30 (chain : List CBlockIndex) : Bool :=
  match chain[(node.params.getConsensus 0).bip34Height]? with
  | none => true
  | some index => index.hash ≠ (node.params.getConsensus 0).bip34Hash

/-- `GetUapMintFlags`. -/
def uapMintActive (nHeight : ℕ) : Bool := nHeight ≥ (node.params.getConsensus 0).uapMintHeight

/-- The script flags of a block on top of `chain`. -/
def getBlockScriptFlags (chain : List CBlockIndex) : ScriptFlags :=
  blockScriptFlags (chain.length ≥ (node.params.getConsensus 0).bip66Height)
    (chain.length ≥ (node.params.getConsensus 0).bip65Height) (uapMintActive node chain.length)
    (node.csvActive chain)

/-- What the transaction loop of `ConnectBlock` carries. -/
structure ConnectState where
  view : CCoinsView
  nFees : ℤ
  nSigOpsCost : ℕ
  vtxundo : List (List CTxInUndo)

def prevHeight (view : CCoinsView) (txin : CTxIn) : ℕ := ((view.lookup txin.prevout.hash).map CCoins.nHeight).getD 0

/-- The first checks of the loop, on a transaction that spends something. -/
def checkSpends (chain : List CBlockIndex) (view : CCoinsView) (tx : CTransaction) : Except Reject Unit :=
  if tx.isCoinBase then .ok ()
  else do
    failIf (view.haveInputs tx = false) (dos 100 "bad-txns-inputs-missingorspent")
    failIf (sequenceLocks tx (node.csvActive chain) (tx.vin.map (prevHeight view)) chain = false)
      (dos 100 "bad-txns-nonfinal")

def txFee (view : CCoinsView) (tx : CTransaction) : Except Reject ℤ :=
  if tx.isCoinBase then .ok 0
  else do
    let nValueOut ← orFail (thrown "GetValueOut: value out of range") (getValueOut? tx)
    .ok (view.getValueIn tx - nValueOut)

/-- One iteration of the transaction loop of `ConnectBlock`. The creation rule is applied to every
transaction, the coinbase included, whether or not scripts are checked. -/
def connectTx (chain : List CBlockIndex) (fScriptChecks : Bool) (s : ConnectState) (tx : CTransaction) :
    Except Reject ConnectState := do
  let flags := getBlockScriptFlags node chain
  checkSpends node chain s.view tx
  let nSigOpsCost := s.nSigOpsCost + getTransactionSigOpCost tx s.view flags
  failIf (nSigOpsCost > maxBlockSigOpsCost) (dos 100 "bad-blk-sigops")
  (if flags.uapMint then checkUapOutputCreation node.crypto tx s.view else .ok ())
  let nFee ← txFee s.view tx
  checkInputs node.crypto node.params tx s.view fScriptChecks flags chain.length
  let (view, undo) ← orFail (thrown "assert(false)") (updateCoins? node.crypto tx s.view chain.length)
  .ok { view := view, nFees := s.nFees + nFee, nSigOpsCost := nSigOpsCost, vtxundo := s.vtxundo ++ [undo] }

/-- `ConnectBlock` on a block that is not the genesis block. -/
def connectTxs (s : ChainState) (block : CBlock) : Except Reject ConnectState := do
  failIf (s.chain = []) (thrown "pindex->pprev")
  failIf (enforceBIP30 node s.chain = true ∧ block.vtx.any (fun tx => s.coins.lookup (node.crypto.txid tx) ≠ none))
    (dos 100 "bad-txns-BIP30")
  let fScriptChecks := node.fScriptChecks s.chain block.toCBlockHeader
  let t ← block.vtx.foldlM (connectTx node s.chain fScriptChecks) ⟨s.coins, 0, 0, []⟩
  let coinbase ← orFail (thrown "block.vtx[0]") block.vtx.head?
  let nValueOut ← orFail (thrown "GetValueOut: value out of range") (getValueOut? coinbase)
  let blockReward := t.nFees + getWhippetBlockSubsidy node.generateMTRandom s.nextHeight
    (node.params.getConsensus s.nextHeight) s.bestBlock
  failIf (nValueOut > blockReward) (dos 100 "bad-cb-amount")
  .ok t

/-- How `ConnectBlock` reports a failed `CheckBlock`. -/
def abortIfCorrupt (r : Reject) : Reject :=
  if r.corruptionPossible then
    { nDoS := 0, code := .none
      reason := "Corrupt block found indicating potential hardware failure; shutting down" }
  else r

/-- `ConnectBlock`: the state with the block as its tip, and the block's undo data. The transactions of the
genesis block are not connected. -/
def connectBlock (s : ChainState) (block : CBlock) (fJustCheck : Bool) :
    Except Reject (ChainState × List (List CTxInUndo)) := do
  (checkBlock node block (!fJustCheck) (!fJustCheck) s.nextHeight).mapError abortIfCorrupt
  failIf (block.hashPrevBlock ≠ s.bestBlock) (thrown "assert(hashPrevBlock == view.GetBestBlock())")
  let chain := s.chain ++ [node.crypto.blockIndex block.toCBlockHeader]
  if node.crypto.blockHash block.toCBlockHeader = (node.params.getConsensus 0).hashGenesisBlock then
    .ok (⟨chain, s.coins⟩, [])
  else do
    let t ← connectTxs node s block
    .ok (⟨chain, t.view⟩, t.vtxundo.tail)

def connect (s : ChainState) (block : CBlock) : Except Reject ChainState :=
  (connectBlock node s block false).map Prod.fst

def connectBlocks (s : ChainState) (blocks : List CBlock) : Except Reject ChainState :=
  blocks.foldlM (connect node) s

/-- A chain of blocks each of which is also checked in the context of those before it. -/
def acceptBlocks (s : ChainState) (blocks : List CBlock) : Except Reject ChainState :=
  blocks.foldlM (fun s block => do
    contextualCheckBlock node s.chain block
    connect node s block) s

end

end Whippet.Validation
