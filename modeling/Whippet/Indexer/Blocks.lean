import Whippet.Indexer.Store
import Whippet.Lib.Checked

/-! Applying a block to the index and rolling it back. -/
namespace Whippet.Indexer
open Lib Primitives Script

/-- The open transaction of a block, and its undo log so far. -/
structure BlockState where
  store : Store
  change : HeightChange

section
variable (crypto : Crypto) (height : ℤ)

/-- Mark the position spent, and take its order off the book into the undo log. -/
def spendPosition (txid : Text) (k : Outpoint) (t : BlockState) : BlockState :=
  match t.store.positions.lookup k with
  | none => t
  | some pos =>
    if pos.spent then t
    else
      let pos := pos.markSpent txid height
      let store := (t.store.putPosition pos).removeFromLineage pos
      let change := { t.change with spentKeys := t.change.spentKeys ++ [k] }
      match store.orders.lookup k with
      | none => ⟨store, change⟩
      | some order => ⟨store.delOrder k, { change with ordersPruned := change.ordersPruned ++ [order] }⟩

def spendUTXO (k : Outpoint) (t : BlockState) : BlockState :=
  match t.store.utxos.lookup k with
  | none => t
  | some utxo => ⟨t.store.delUTXO k, { t.change with utxosSpent := t.change.utxosSpent ++ [utxo] }⟩

def applyVin (txid : Text) (t : BlockState) (vin : RPCVin) : BlockState :=
  if vin.coinbase ≠ [] then t
  else
    let k := positionKey vin.txid vin.vout
    spendUTXO k (spendPosition height txid k t)

/-- The lineage of a covenant output. A mint's is the hash of its own outpoint. -/
def originOf (tx : RPCTx) (vout : RPCVout) (parsed : UapOutput) : Except String Bytes :=
  if parsed.isMint then uapOriginFromOutpoint crypto tx.txid vout.n else .ok parsed.origin

def positionOf (tx : RPCTx) (vout : RPCVout) (parsed : UapOutput) : Except String Position := do
  let origin ← originOf crypto tx vout parsed
  return {
    txid := tx.txid, vout := vout.n, pubKey := hexEncode parsed.pubkey, multiplier := parsed.multiplier,
    value := vout.value, isMint := parsed.isMint, height := height, spent := false, spentTxid := [],
    spentHeight := 0, origin := hexEncode origin, script := vout.scriptPubKey,
    metadata := if parsed.isMint then txMetadata? tx else none }

def applyVout (tx : RPCTx) (t : BlockState) (vout : RPCVout) : Except String BlockState :=
  let k := positionKey tx.txid vout.n
  match covenantOf? vout with
  | some parsed => do
    let pos ← positionOf crypto height tx vout parsed
    return ⟨(t.store.putPosition pos).addToLineage pos, { t.change with created := t.change.created ++ [k] }⟩
  | none =>
    match parseP2PKHScript? vout.scriptPubKey with
    | some hash160 =>
      let utxo := ⟨tx.txid, vout.n, hexEncode hash160, vout.value, height⟩
      .ok ⟨t.store.putUTXO utxo, { t.change with utxosCreated := t.change.utxosCreated ++ [k] }⟩
    | none => .ok t

def applyTx (t : BlockState) (tx : RPCTx) : Except String BlockState :=
  tx.vout.foldlM (applyVout crypto height tx) (tx.vin.foldl (applyVin height tx.txid) t)

def applyTxs (t : BlockState) (txs : List RPCTx) : Except String BlockState := txs.foldlM (applyTx crypto height) t

end

structure Meta where
  tipHeight : ℤ
  tipHash : Text
  prunedBelow : ℤ

structure Index where
  store : Store := {}
  storeErr : Option String := none
  tipHeight : ℤ := -1
  tipHash : Text := []
  reorgWindow : ℤ := 15000
  prunedBelow : ℤ := 0
  lastCancelNonce : ℤ := 0
  pendingSpends : Table Outpoint Text := ∅

def newIndex (reorgWindow : ℤ) : Index := { reorgWindow := reorgWindow }

/-- `applyBlock`, inside one transaction. Undo logs that leave the reorg window are dropped. -/
def Store.applyBlock (crypto : Crypto) (reorgWindow : ℤ) (block : RPCBlock) (t : Store) (md : Meta) :
    Except String (Store × Meta) := do
  let b ← applyTxs crypto block.height ⟨t, {}⟩ block.tx
  let t := b.store.putHeight block.height block.hash b.change
  let cutoff := block.height - reorgWindow
  if reorgWindow > 0 ∧ cutoff ≥ md.prunedBelow then
    return (t.pruneHeightsBelow (cutoff + 1), ⟨block.height, block.hash, cutoff + 1⟩)
  else return (t, ⟨block.height, block.hash, md.prunedBelow⟩)

/-- Take back a position the block created. One that the block also spent has left its lineage before. -/
def Store.undoCreated (t : Store) (k : Outpoint) : Store :=
  match t.positions.lookup k with
  | none => t.delPosition k
  | some pos => (if pos.spent then t else t.removeFromLineage pos).delPosition k

/-- Take back a spend. A position that the block created is gone by now. -/
def Store.undoSpent (t : Store) (k : Outpoint) : Store :=
  match t.positions.lookup k with
  | none => t
  | some pos => (t.putPosition pos.markUnspent).addToLineage pos.markUnspent

/-- Everything the undo log of a block says to take back. -/
def Store.undoChange (t : Store) (change : HeightChange) : Store :=
  let t := change.created.foldl Store.undoCreated t
  let t := change.spentKeys.foldl Store.undoSpent t
  let t := change.ordersPruned.foldl (fun t o => if o.key ∈ change.created then t else t.putOrder o) t
  let t := change.utxosCreated.foldl Store.delUTXO t
  change.utxosSpent.foldl (fun t utxo => if utxo.key ∈ change.utxosCreated then t else t.putUTXO utxo) t

/-- `undoBlock`, inside one transaction. Without an undo log it does nothing. -/
def Store.undoBlock (height : ℤ) (t : Store) (md : Meta) : Store × Meta :=
  match t.undoLog? height with
  | none => (t, md)
  | some change =>
    let t := (t.undoChange change).delHeight height
    if md.tipHeight = height then (t, ⟨height - 1, t.hashAt (height - 1), md.prunedBelow⟩) else (t, md)

namespace Index

/-- `write`: commit the transaction, or latch its error and refuse every later write. -/
def write (idx : Index) (fn : Store → Meta → Except String (Store × Meta)) : Index :=
  match idx.storeErr with
  | some _ => idx
  | none =>
    match fn idx.store ⟨idx.tipHeight, idx.tipHash, idx.prunedBelow⟩ with
    | .error e => { idx with storeErr := some e }
    | .ok (store, md) =>
      { idx with store := store, tipHeight := md.tipHeight, tipHash := md.tipHash, prunedBelow := md.prunedBelow }

def applyBlock (crypto : Crypto) (idx : Index) (block : RPCBlock) : Index :=
  idx.write (Store.applyBlock crypto idx.reorgWindow block)

def undoBlock (idx : Index) (height : ℤ) : Index := idx.write fun t md => .ok (t.undoBlock height md)

def canUndo (idx : Index) (height : ℤ) : Bool := (idx.store.undoLog? height).isSome

def isPruned (idx : Index) (height : ℤ) : Bool := height < idx.prunedBelow

def hashAtHeight? (idx : Index) (height : ℤ) : Option Text := (idx.store.heights.lookup height).map HeightRow.hash

/-- `Reset` discards the index, but not the withdrawals it remembers. -/
def reset (idx : Index) : Index :=
  match idx.storeErr with
  | some _ => idx
  | none => { idx with store := idx.store.truncate, tipHeight := -1, tipHash := [], prunedBelow := 0 }

end Index
end Whippet.Indexer
