import Whippet.Lib.Dependents
import Whippet.Lib.Run
import Whippet.Validation.Disconnect

/-! The memory pool: `AcceptToMemoryPool`, and what connecting and disconnecting the tip does to the pool. -/
namespace Whippet.Validation
open Lib Primitives Script Consensus

def mempoolHeight : ℕ := 0x7fffffff

def parents (tx : CTransaction) : List Uint256 := tx.vin.map fun txin => txin.prevout.hash

def spendsOutPoint (p : COutPoint) (tx : CTransaction) : Bool := tx.vin.any fun txin => txin.prevout = p

section
variable (crypto : Crypto)

/-- `CCoinsViewMemPool`: the outputs of the transactions of the pool, in front of the coins of the chain. -/
def memPoolView (pool : List CTransaction) (coins : CCoinsView) : CCoinsView :=
  pool.foldr (fun tx view => view.setCoins (crypto.txid tx) (CCoins.fromTx tx mempoolHeight)) coins

/-- `RemoveStaged` of what `CalculateDescendants` finds. -/
def removeRecursive (roots : List Uint256) (pool : List CTransaction) : List CTransaction :=
  removeWithDependents crypto.txid parents roots pool

def nextTx (pool : List CTransaction) (p : COutPoint) : List CTransaction := pool.filter (spendsOutPoint p)

def removeConflicts (tx : CTransaction) (pool : List CTransaction) : List CTransaction :=
  tx.vin.foldl (fun pool txin =>
    let conflicts := (nextTx pool txin.prevout).filter fun other => crypto.txid other ≠ crypto.txid tx
    removeRecursive crypto (conflicts.map crypto.txid) pool) pool

/-- `removeForBlock`: a transaction of the block leaves alone, what conflicts with it takes its descendants along. -/
def removeForBlock (vtx : List CTransaction) (pool : List CTransaction) : List CTransaction :=
  vtx.foldl (fun pool tx => removeConflicts crypto tx (pool.filter fun other => crypto.txid other ≠ crypto.txid tx)) pool

end

def signalsReplacement (tx : CTransaction) : Bool := tx.vin.any fun txin => txin.nSequence < 0xfffffffe

/-- What the operator's settings and the clock decide about a transaction. -/
structure MempoolPolicy where
  /-- The checks that read neither the UAP rules nor the scripts: standard forms, lock times, sizes, sigops, fees,
  limits of chains in the pool, and the fees of a replacement. -/
  refuse : CTransaction → Option Reject
  fEnableReplacement : Bool
  /-- `STANDARD_SCRIPT_VERIFY_FLAGS`, or what `-promiscuousmempoolflags` puts in their place. -/
  scriptVerifyFlags : ScriptFlags := standardScriptVerifyFlags
  /-- What `LimitMempoolSize` takes out once the transaction is in, each with its descendants. -/
  evicted : List Uint256 := []

def spendsCovenant (view : CCoinsView) (tx : CTransaction) : Bool :=
  (if tx.isCoinBase then [] else tx.vin).any fun txin =>
    (parseUapOutputScript? (prevOutput view txin).scriptPubKey).isSome

section
variable (node : Node)

/-- The UAP rules of a block at a height, as `AcceptToMemoryPool` checks them. -/
def checkUapRules (nHeight : ℕ) (view : CCoinsView) (tx : CTransaction) : Except Reject Unit :=
  if uapMintActive node nHeight then checkUapOutputCreation node.crypto tx view
  else failIf (spendsCovenant view tx = true) { nDoS := 0, code := .nonstandard, reason := "premature-uap-spend" }

/-- The checks of `AcceptToMemoryPool` on top of a chain, with the height that `CheckInputs` reads off the coins. The
result is what the transaction replaces. -/
def checkForMempool (policy : MempoolPolicy) (chain : List CBlockIndex) (nSpendHeight : ℕ) (coins : CCoinsView)
    (pool : List CTransaction) (tx : CTransaction) : Except Reject (List Uint256) := do
  checkTransaction tx true
  failIf (tx.isCoinBase = true) (dos 100 "coinbase")
  (match policy.refuse tx with
    | some r => .error r
    | none => .ok ())
  failIf (node.crypto.txid tx ∈ pool.map node.crypto.txid)
    { nDoS := 0, code := .alreadyKnown, reason := "txn-already-in-mempool" }
  let conflicts := tx.vin.flatMap fun txin => nextTx pool txin.prevout
  failIf (∃ other ∈ conflicts, policy.fEnableReplacement = false ∨ signalsReplacement other = false)
    { nDoS := 0, code := .conflict, reason := "txn-mempool-conflict" }
  let view := memPoolView node.crypto pool coins
  failIf (view.lookup (node.crypto.txid tx) ≠ none)
    { nDoS := 0, code := .alreadyKnown, reason := "txn-already-known" }
  failIf (∃ hash ∈ parents tx, view.lookup hash = none) { nDoS := 0, code := .none, reason := "" }
  failIf (view.haveInputs tx = false) { nDoS := 0, code := .duplicate, reason := "bad-txns-inputs-spent" }
  -- an ancestor is replaced exactly if a parent goes with what is replaced
  let setConflicts := conflicts.map node.crypto.txid
  let kept := removeRecursive node.crypto setConflicts pool
  failIf (∃ hash ∈ parents tx, hash ∈ pool.map node.crypto.txid ∧ hash ∉ kept.map node.crypto.txid)
    (dos 10 "bad-txns-spends-conflicting-tx")
  checkUapRules node chain.length view tx
  let uapMint := uapMintActive node chain.length
  checkInputs node.crypto node.params tx view true
    { policy.scriptVerifyFlags with uapMint := policy.scriptVerifyFlags.uapMint || uapMint } nSpendHeight
  checkInputs node.crypto node.params tx view true { mandatoryScriptVerifyFlags with uapMint := uapMint } nSpendHeight
  return setConflicts

/-- `AcceptToMemoryPool`: its result and the pool. A transaction that is evicted at once is refused, and what it has
replaced is gone. -/
def acceptToMemoryPool (policy : MempoolPolicy) (chain : List CBlockIndex) (nSpendHeight : ℕ) (coins : CCoinsView)
    (pool : List CTransaction) (tx : CTransaction) : Except Reject Unit × List CTransaction :=
  match checkForMempool node policy chain nSpendHeight coins pool tx with
  | .error r => (.error r, pool)
  | .ok setConflicts =>
    let pool := removeRecursive node.crypto setConflicts pool ++ [tx]
    let pool := removeRecursive node.crypto policy.evicted pool
    if node.crypto.txid tx ∈ pool.map node.crypto.txid then (.ok (), pool)
    else (.error { nDoS := 0, code := .insufficientFee, reason := "mempool full" }, pool)

/-- The active chain with its coins, the blocks on disk with their undo data, and the pool. -/
structure NodeState extends ChainState where
  stored : List (CBlock × List (List CTxInUndo)) := []
  pool : List CTransaction := []

def connectTip (s : NodeState) (block : CBlock) : NodeState :=
  match connectBlock node s.toChainState block false with
  | .error _ => s
  | .ok (t, undo) =>
    { toChainState := t, stored := s.stored ++ [(block, undo)], pool := removeForBlock node.crypto block.vtx s.pool }

/-- A transaction of a disconnected block goes back to the pool, or what depends on it leaves. The pool is not limited
here. -/
def resurrect (policy : MempoolPolicy) (chain : List CBlockIndex) (coins : CCoinsView) (pool : List CTransaction)
    (tx : CTransaction) : List CTransaction :=
  if tx.isCoinBase then removeRecursive node.crypto [node.crypto.txid tx] pool
  else
    match acceptToMemoryPool node { policy with evicted := [] } chain (chain.length - 1) coins pool tx with
    | (.ok (), pool) => pool
    | (.error _, pool) => removeRecursive node.crypto [node.crypto.txid tx] pool

/-- `DisconnectTip`. The chain is only shortened once the transactions are back in the pool. -/
def disconnectTip (s : NodeState) (policy : MempoolPolicy) : NodeState :=
  match s.stored.getLast? with
  | none => s
  | some (block, undo) =>
    match disconnectBlock node.crypto s.toChainState block undo with
    | .ok (t, true) =>
      { toChainState := t, stored := s.stored.dropLast
        pool := block.vtx.foldl (resurrect node policy s.chain t.coins) s.pool }
    | _ => s

inductive MempoolEvent
  | acceptToMemoryPool (policy : MempoolPolicy) (tx : CTransaction)
  | connectTip (block : CBlock)
  | disconnectTip (policy : MempoolPolicy)
  /-- `removeForReorg` and `LimitMempoolSize`, which take these transactions out with their descendants. -/
  | removeForReorg (stale : List Uint256)

def NodeState.step (s : NodeState) : MempoolEvent → NodeState
  | .acceptToMemoryPool policy tx =>
    { s with pool := (acceptToMemoryPool node policy s.chain s.chain.length s.coins s.pool tx).2 }
  | .connectTip block => connectTip node s block
  | .disconnectTip policy => disconnectTip node s policy
  | .removeForReorg stale => { s with pool := removeRecursive node.crypto stale s.pool }

end

def MempoolEvent.txs : MempoolEvent → List CTransaction
  | .acceptToMemoryPool _ tx => [tx]
  | .connectTip block => block.vtx
  | .disconnectTip _ | .removeForReorg _ => []

end Whippet.Validation
