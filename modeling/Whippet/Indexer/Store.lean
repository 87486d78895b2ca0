import Whippet.Indexer.Rpc
import Whippet.Lib.Table

/-! The indexer's database: its tables, the statements that write them, and the lineage summaries that are
maintained along with the positions. -/
namespace Whippet.Indexer
open Lib

structure Position where
  txid : Text
  vout : UInt32
  pubKey : Text
  multiplier : ℤ
  value : ℤ
  isMint : Bool
  height : ℤ
  spent : Bool
  spentTxid : Text
  spentHeight : ℤ
  origin : Text
  script : Text
  metadata : Option TokenMetadata
  deriving DecidableEq, Repr

def Position.key (pos : Position) : Outpoint := positionKey pos.txid pos.vout

/-- A second write of a position only updates what a spend or a rollback can change. -/
def Position.rewrite (row pos : Position) : Position :=
  { row with
    spent := pos.spent, spentTxid := pos.spentTxid, spentHeight := pos.spentHeight, origin := pos.origin,
    script := pos.script, metadata := pos.metadata }

def Position.markSpent (pos : Position) (txid : Text) (height : ℤ) : Position :=
  { pos with spent := true, spentTxid := txid, spentHeight := height }

def Position.markUnspent (pos : Position) : Position := { pos with spent := false, spentTxid := [], spentHeight := 0 }

structure UTXO where
  txid : Text
  vout : UInt32
  hash160 : Text
  value : ℤ
  height : ℤ
  deriving DecidableEq, Repr

def UTXO.key (utxo : UTXO) : Outpoint := positionKey utxo.txid utxo.vout

structure Order where
  txid : Text
  vout : UInt32
  multiplier : ℤ
  pubKey : Text
  scriptSig : Text
  paymentScript : Text
  paymentValue : ℤ
  createdAt : ℤ
  backingValue : ℤ
  origin : Text
  cancelNonce : ℤ
  status : Text
  pendingTxid : Text
  deriving DecidableEq, Repr

def Order.key (o : Order) : Outpoint := positionKey o.txid o.vout

/-- `heightChange`, the undo log of a block. -/
structure HeightChange where
  created : List Outpoint := []
  spentKeys : List Outpoint := []
  utxosCreated : List Outpoint := []
  utxosSpent : List UTXO := []
  ordersPruned : List Order := []
  deriving DecidableEq, Repr

structure HeightRow where
  hash : Text
  undo : Option HeightChange
  deriving DecidableEq, Repr

structure LineageAgg where
  multiplier : ℤ := 0
  unspentValue : ℤ := 0
  holderCount : ℤ := 0
  positionCount : ℤ := 0
  mintHeight : ℤ := 0
  hasMint : Bool := false
  deriving DecidableEq, Repr

/-- The tables `lineages` and `lineage_holders`. -/
structure LineageTables where
  lineages : Table Text LineageAgg := ∅
  holders : Table (Text × Text) ℤ := ∅

structure Store where
  positions : Table Outpoint Position := ∅
  utxos : Table Outpoint UTXO := ∅
  heights : Table ℤ HeightRow := ∅
  orders : Table Outpoint Order := ∅
  tombstones : Table Outpoint (Text × ℤ) := ∅
  lineage : LineageTables := {}

def upsertPosition (positions : Table Outpoint Position) (pos : Position) : Table Outpoint Position :=
  match positions.lookup pos.key with
  | none => positions.insert pos.key pos
  | some row => positions.insert pos.key (row.rewrite pos)

/-- The statement `putUTXO`, which leaves an existing row alone. -/
def insertUTXO (utxos : Table Outpoint UTXO) (utxo : UTXO) : Table Outpoint UTXO :=
  match utxos.lookup utxo.key with
  | none => utxos.insert utxo.key utxo
  | some _ => utxos

namespace Store

def putPosition (t : Store) (pos : Position) : Store := { t with positions := upsertPosition t.positions pos }

def delPosition (t : Store) (key : Outpoint) : Store := { t with positions := t.positions.erase key }

def putUTXO (t : Store) (utxo : UTXO) : Store := { t with utxos := insertUTXO t.utxos utxo }

def delUTXO (t : Store) (key : Outpoint) : Store := { t with utxos := t.utxos.erase key }

def putOrder (t : Store) (o : Order) : Store := { t with orders := t.orders.insert o.key o }

def delOrder (t : Store) (key : Outpoint) : Store := { t with orders := t.orders.erase key }

def putTombstone (t : Store) (key : Outpoint) (scriptSig : Text) (time : ℤ) : Store :=
  { t with tombstones := t.tombstones.insert key (scriptSig, time) }

def delTombstone (t : Store) (key : Outpoint) : Store := { t with tombstones := t.tombstones.erase key }

def putHeight (t : Store) (height : ℤ) (hash : Text) (undo : HeightChange) : Store :=
  { t with heights := t.heights.insert height ⟨hash, some undo⟩ }

def delHeight (t : Store) (height : ℤ) : Store := { t with heights := t.heights.erase height }

def pruneHeightsBelow (t : Store) (height : ℤ) : Store :=
  { t with heights := Table.deleteWhere (· < height) t.heights }

def hashAt (t : Store) (height : ℤ) : Text := ((t.heights.lookup height).map HeightRow.hash).getD []

def undoLog? (t : Store) (height : ℤ) : Option HeightChange := (t.heights.lookup height).bind HeightRow.undo

/-- `truncate` keeps the tombstones. -/
def truncate (t : Store) : Store := { tombstones := t.tombstones }

end Store

def maxInt64 : ℤ := 2 ^ 63 - 1

def satAdd (a b : ℤ) : ℤ := if b > 0 ∧ a > maxInt64 - b then maxInt64 else a + b

/-- The summary with one more unspent position, of a holder who had `n` of them. -/
def LineageAgg.add (agg : LineageAgg) (n : ℤ) (pos : Position) : LineageAgg where
  multiplier := pos.multiplier
  unspentValue := if pos.value > 0 then satAdd agg.unspentValue pos.value else agg.unspentValue
  holderCount := if n = 0 then agg.holderCount + 1 else agg.holderCount
  positionCount := agg.positionCount + 1
  mintHeight := if pos.isMint then pos.height else agg.mintHeight
  hasMint := if pos.isMint then true else agg.hasMint

/-- The summary with one unspent position less, of a holder who had `n` of them. -/
def LineageAgg.remove (agg : LineageAgg) (n : ℤ) (pos : Position) : LineageAgg where
  multiplier := agg.multiplier
  unspentValue := if pos.value > 0 then max (agg.unspentValue - pos.value) 0 else agg.unspentValue
  holderCount := if n = 1 then agg.holderCount - 1 else agg.holderCount
  positionCount := agg.positionCount - 1
  mintHeight := if pos.isMint then 0 else agg.mintHeight
  hasMint := if pos.isMint then false else agg.hasMint

namespace LineageTables

def holderN (t : LineageTables) (origin pubKey : Text) : ℤ := (t.holders.lookup (origin, pubKey)).getD 0

def add (t : LineageTables) (pos : Position) : LineageTables :=
  if pos.origin = [] then t
  else
    let agg := (t.lineages.lookup pos.origin).getD {}
    let n := t.holderN pos.origin pos.pubKey
    { holders := t.holders.insert (pos.origin, pos.pubKey) (n + 1)
      lineages := t.lineages.insert pos.origin (agg.add n pos) }

/-- The holder rows after one of the holder's `n` positions is gone. -/
def dropHolder (t : LineageTables) (n : ℤ) (pos : Position) : Table (Text × Text) ℤ :=
  if n ≤ 1 then t.holders.erase (pos.origin, pos.pubKey) else t.holders.insert (pos.origin, pos.pubKey) (n - 1)

def remove (t : LineageTables) (pos : Position) : LineageTables :=
  if pos.origin = [] then t
  else
    match t.lineages.lookup pos.origin with
    | none => t
    | some agg =>
      let n := t.holderN pos.origin pos.pubKey
      let agg := agg.remove n pos
      if agg.positionCount ≤ 0 then
        { holders := Table.deleteWhere (fun k => k.1 = pos.origin) (t.dropHolder n pos)
          lineages := t.lineages.erase pos.origin }
      else
        { holders := t.dropHolder n pos
          lineages := t.lineages.insert pos.origin agg }

end LineageTables

def Store.addToLineage (t : Store) (pos : Position) : Store := { t with lineage := t.lineage.add pos }

def Store.removeFromLineage (t : Store) (pos : Position) : Store := { t with lineage := t.lineage.remove pos }

end Whippet.Indexer
