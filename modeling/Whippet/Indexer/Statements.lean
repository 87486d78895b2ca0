import Whippet.Indexer.Orders
import Whippet.Lib.Transaction

/-! The writes of the indexer statement by statement, where any statement may fail. -/
namespace Whippet.Indexer
open Lib Primitives Script

/-- `storeTx`: statements inside one transaction. -/
abbrev StoreTx (α : Type) := Statements Store String α

namespace StoreTx
open Statements

def position (k : Outpoint) : StoreTx (Option Position) := query fun t => t.positions.lookup k

def utxo (k : Outpoint) : StoreTx (Option UTXO) := query fun t => t.utxos.lookup k

def order (k : Outpoint) : StoreTx (Option Order) := query fun t => t.orders.lookup k

def hashAt (height : ℤ) : StoreTx Text := query fun t => t.hashAt height

def undoLog (height : ℤ) : StoreTx (Option HeightChange) := query fun t => t.undoLog? height

def tombstone (k : Outpoint) : StoreTx (Option Text) := query fun t => t.tombstone? k

def lineage (origin : Text) : StoreTx (Option LineageAgg) := query fun t => t.lineage.lineages.lookup origin

def holderN (origin pubKey : Text) : StoreTx ℤ := query fun t => t.lineage.holderN origin pubKey

def putHolder (origin pubKey : Text) (n : ℤ) : StoreTx Unit :=
  exec fun t => { t with lineage.holders := t.lineage.holders.insert (origin, pubKey) n }

def delHolder (origin pubKey : Text) : StoreTx Unit :=
  exec fun t => { t with lineage.holders := t.lineage.holders.erase (origin, pubKey) }

def delHolders (origin : Text) : StoreTx Unit :=
  exec fun t => { t with lineage.holders := Table.deleteWhere (fun k => k.1 = origin) t.lineage.holders }

def putLineage (origin : Text) (agg : LineageAgg) : StoreTx Unit :=
  exec fun t => { t with lineage.lineages := t.lineage.lineages.insert origin agg }

def delLineage (origin : Text) : StoreTx Unit :=
  exec fun t => { t with lineage.lineages := t.lineage.lineages.erase origin }

def addToLineage (pos : Position) : StoreTx Unit :=
  if pos.origin = [] then pure ()
  else do
    let agg ← lineage pos.origin
    let n ← holderN pos.origin pos.pubKey
    putHolder pos.origin pos.pubKey (n + 1)
    putLineage pos.origin ((agg.getD {}).add n pos)

def dropHolder (n : ℤ) (pos : Position) : StoreTx Unit :=
  if n ≤ 1 then delHolder pos.origin pos.pubKey else putHolder pos.origin pos.pubKey (n - 1)

def putOrDelLineage (origin : Text) (agg : LineageAgg) : StoreTx Unit :=
  if agg.positionCount ≤ 0 then do
    delHolders origin
    delLineage origin
  else putLineage origin agg

def removeFromLineage (pos : Position) : StoreTx Unit :=
  if pos.origin = [] then pure ()
  else do
    match ← lineage pos.origin with
    | none => pure ()
    | some agg => do
      let n ← holderN pos.origin pos.pubKey
      dropHolder n pos
      putOrDelLineage pos.origin (agg.remove n pos)

section
variable (crypto : Crypto) (height : ℤ)

def spendPosition (txid : Text) (k : Outpoint) (change : HeightChange) : StoreTx HeightChange := do
  match ← position k with
  | none => pure change
  | some pos =>
    if pos.spent then pure change
    else do
      let pos := pos.markSpent txid height
      exec (Store.putPosition · pos)
      removeFromLineage pos
      let change := { change with spentKeys := change.spentKeys ++ [k] }
      match ← order k with
      | none => pure change
      | some order => do
        exec (Store.delOrder · k)
        pure { change with ordersPruned := change.ordersPruned ++ [order] }

def spendUTXO (k : Outpoint) (change : HeightChange) : StoreTx HeightChange := do
  match ← utxo k with
  | none => pure change
  | some utxo => do
    exec (Store.delUTXO · k)
    pure { change with utxosSpent := change.utxosSpent ++ [utxo] }

def applyVin (txid : Text) (change : HeightChange) (vin : RPCVin) : StoreTx HeightChange :=
  if vin.coinbase ≠ [] then pure change
  else do
    let change ← spendPosition height txid (positionKey vin.txid vin.vout) change
    spendUTXO (positionKey vin.txid vin.vout) change

def applyVout (tx : RPCTx) (change : HeightChange) (vout : RPCVout) : StoreTx HeightChange :=
  let k := positionKey tx.txid vout.n
  match covenantOf? vout with
  | some parsed => do
    let pos ← check (positionOf crypto height tx vout parsed)
    exec (Store.putPosition · pos)
    addToLineage pos
    pure { change with created := change.created ++ [k] }
  | none =>
    match parseP2PKHScript? vout.scriptPubKey with
    | some hash160 => do
      exec (Store.putUTXO · ⟨tx.txid, vout.n, hexEncode hash160, vout.value, height⟩)
      pure { change with utxosCreated := change.utxosCreated ++ [k] }
    | none => pure change

def applyTx (change : HeightChange) (tx : RPCTx) : StoreTx HeightChange := do
  let change ← tx.vin.foldlM (applyVin height tx.txid) change
  tx.vout.foldlM (applyVout crypto height tx) change

end

def applyBlock (crypto : Crypto) (reorgWindow : ℤ) (block : RPCBlock) (md : Meta) : StoreTx Meta := do
  let change ← block.tx.foldlM (applyTx crypto block.height) {}
  exec (Store.putHeight · block.height block.hash change)
  let cutoff := block.height - reorgWindow
  if reorgWindow > 0 ∧ cutoff ≥ md.prunedBelow then do
    exec (Store.pruneHeightsBelow · (cutoff + 1))
    pure ⟨block.height, block.hash, cutoff + 1⟩
  else pure ⟨block.height, block.hash, md.prunedBelow⟩

def undoCreated (k : Outpoint) : StoreTx Unit := do
  match ← position k with
  | none => exec (Store.delPosition · k)
  | some pos =>
    if pos.spent then exec (Store.delPosition · k)
    else do
      removeFromLineage pos
      exec (Store.delPosition · k)

def undoSpent (k : Outpoint) : StoreTx Unit := do
  match ← position k with
  | none => pure ()
  | some pos => do
    exec (Store.putPosition · pos.markUnspent)
    addToLineage pos.markUnspent

def undoBlock (height : ℤ) (md : Meta) : StoreTx Meta := do
  match ← undoLog height with
  | none => pure md
  | some change => do
    change.created.foldlM (fun _ k => undoCreated k) ()
    change.spentKeys.foldlM (fun _ k => undoSpent k) ()
    change.ordersPruned.foldlM (fun _ o => if o.key ∈ change.created then pure () else exec (Store.putOrder · o)) ()
    change.utxosCreated.foldlM (fun _ k => exec (Store.delUTXO · k)) ()
    change.utxosSpent.foldlM
      (fun _ utxo => if utxo.key ∈ change.utxosCreated then pure () else exec (Store.putUTXO · utxo)) ()
    exec (Store.delHeight · height)
    if md.tipHeight = height then do
      let hash ← hashAt (height - 1)
      pure ⟨height - 1, hash, md.prunedBelow⟩
    else pure md

section
variable {faults : Faults String} {n : ℕ} {t : Store}

/-- How the outcome of a program that only writes is read. -/
abbrev written (_ : Unit) (t : Store) : Store := t

theorem addToLineage_follows (pos : Position) :
    Follows faults written (addToLineage pos faults n t) (.ok (t.addToLineage pos)) := by
  unfold addToLineage
  by_cases horigin : pos.origin = []
  · rw [if_pos horigin]
    have hsame : t.addToLineage pos = t := by simp [Store.addToLineage, LineageTables.add, horigin]
    rw [hsame]
    exact .pure ()
  · rw [if_neg horigin]
    refine .query_bind fun n => .query_bind fun n => .exec_bind fun n => ?_
    have hadd : t.addToLineage pos = { t with
        lineage.holders := t.lineage.holders.insert (pos.origin, pos.pubKey) (t.lineage.holderN pos.origin pos.pubKey + 1)
        lineage.lineages := t.lineage.lineages.insert pos.origin
          (((t.lineage.lineages.lookup pos.origin).getD {}).add (t.lineage.holderN pos.origin pos.pubKey) pos) } := by
      simp [Store.addToLineage, LineageTables.add, horigin]
    rw [hadd]
    exact .exec

theorem dropHolder_follows (m : ℤ) (pos : Position) : Follows faults written (dropHolder m pos faults n t)
    (.ok { t with lineage.holders := t.lineage.dropHolder m pos }) := by
  unfold dropHolder LineageTables.dropHolder
  split_ifs
  · exact .exec
  · exact .exec

theorem removeFromLineage_follows (pos : Position) :
    Follows faults written (removeFromLineage pos faults n t) (.ok (t.removeFromLineage pos)) := by
  unfold removeFromLineage Store.removeFromLineage LineageTables.remove
  by_cases horigin : pos.origin = []
  · simp only [if_pos horigin]
    exact .pure ()
  · simp only [if_neg horigin]
    refine .query_bind fun n => ?_
    cases t.lineage.lineages.lookup pos.origin with
    | none => exact .pure ()
    | some agg =>
      refine .query_bind fun n => .ok_bind (dropHolder_follows _ pos) ?_
      rintro - n - rfl
      unfold putOrDelLineage
      dsimp only
      split_ifs
      · exact .exec_bind fun n => .exec
      · exact .exec

/-- How the outcome of a program on a block is read. -/
abbrev logged (change : HeightChange) (t : Store) : BlockState := ⟨t, change⟩

variable {crypto : Crypto} {height : ℤ}

theorem spendPosition_follows (txid : Text) (k : Outpoint) (change : HeightChange) :
    Follows faults logged (spendPosition height txid k change faults n t)
      (.ok (Indexer.spendPosition height txid k ⟨t, change⟩)) := by
  unfold spendPosition Indexer.spendPosition
  refine .query_bind fun n => ?_
  cases t.positions.lookup k with
  | none => exact .pure _
  | some pos =>
    dsimp only
    split_ifs
    · exact .pure _
    · refine .exec_bind fun n => .ok_bind (removeFromLineage_follows _) ?_
      rintro - n t' rfl
      refine .query_bind fun n => ?_
      cases Finmap.lookup k ((t.putPosition (pos.markSpent txid height)).removeFromLineage
        (pos.markSpent txid height)).orders with
      | none => exact .pure _
      | some order => exact .exec_bind fun n => .pure _

theorem spendUTXO_follows (k : Outpoint) (change : HeightChange) :
    Follows faults logged (spendUTXO k change faults n t) (.ok (Indexer.spendUTXO k ⟨t, change⟩)) := by
  unfold spendUTXO Indexer.spendUTXO
  refine .query_bind fun n => ?_
  cases t.utxos.lookup k with
  | none => exact .pure _
  | some utxo => exact .exec_bind fun n => .pure _

theorem applyVin_follows (txid : Text) (change : HeightChange) (vin : RPCVin) :
    Follows faults logged (applyVin height txid change vin faults n t)
      (.ok (Indexer.applyVin height txid ⟨t, change⟩ vin)) := by
  unfold applyVin Indexer.applyVin
  split_ifs
  · exact .pure _
  · refine .ok_bind (spendPosition_follows txid _ change) ?_
    intro change' n t' heq
    dsimp only
    rw [← heq]
    exact spendUTXO_follows _ _

theorem applyVout_follows (tx : RPCTx) (change : HeightChange) (vout : RPCVout) :
    Follows faults logged (applyVout crypto height tx change vout faults n t)
      (Indexer.applyVout crypto height tx ⟨t, change⟩ vout) := by
  unfold applyVout Indexer.applyVout
  dsimp only
  cases covenantOf? vout with
  | some parsed =>
    refine .check_bind fun pos _ => .exec_bind fun n => .ok_bind (addToLineage_follows pos) ?_
    rintro - n t' rfl
    exact .pure _
  | none =>
    dsimp only
    cases parseP2PKHScript? vout.scriptPubKey with
    | some hash160 => exact .exec_bind fun n => .pure _
    | none => exact .pure _

theorem applyTx_follows (change : HeightChange) (tx : RPCTx) :
    Follows faults logged (applyTx crypto height change tx faults n t)
      (Indexer.applyTx crypto height ⟨t, change⟩ tx) := by
  unfold applyTx Indexer.applyTx
  refine .ok_bind (.foldl (fun change vin n t => applyVin_follows tx.txid change vin) tx.vin change) ?_
  intro change' n t' heq
  rw [← heq]
  exact .foldlM (fun change vout n t => applyVout_follows tx change vout) tx.vout change'

/-- How the outcome of a whole write is read. -/
abbrev returned (md : Meta) (t : Store) : Store × Meta := (t, md)

theorem applyBlock_follows (reorgWindow : ℤ) (block : RPCBlock) (md : Meta) :
    Follows faults returned (applyBlock crypto reorgWindow block md faults n t)
      (t.applyBlock crypto reorgWindow block md) := by
  unfold applyBlock Store.applyBlock
  refine .bind (.foldlM (fun change tx n t => applyTx_follows change tx) block.tx {}) ?_
  intro change n t'
  refine .exec_bind fun n => ?_
  dsimp only
  split_ifs
  · exact .exec_bind fun n => .pure _
  · exact .pure _

theorem undoCreated_follows (k : Outpoint) :
    Follows faults written (undoCreated k faults n t) (.ok (t.undoCreated k)) := by
  unfold undoCreated Store.undoCreated
  refine .query_bind fun n => ?_
  cases t.positions.lookup k with
  | none => exact .exec
  | some pos =>
    dsimp only
    split_ifs
    · exact .exec
    · refine .ok_bind (removeFromLineage_follows pos) ?_
      rintro - n t' rfl
      exact .exec

theorem undoSpent_follows (k : Outpoint) : Follows faults written (undoSpent k faults n t) (.ok (t.undoSpent k)) := by
  unfold undoSpent Store.undoSpent
  refine .query_bind fun n => ?_
  cases t.positions.lookup k with
  | none => exact .pure ()
  | some pos => exact .exec_bind fun n => addToLineage_follows pos.markUnspent

theorem skip_or_exec_follows (c : Prop) [Decidable c] (f : Store → Store) :
    Follows faults written ((if c then pure () else exec f : StoreTx Unit) faults n t) (.ok (if c then t else f t)) := by
  split_ifs
  · exact .pure ()
  · exact .exec

theorem foldl_follows {γ : Type} {body : γ → StoreTx Unit} {g : Store → γ → Store}
    (h : ∀ b n t, Follows faults written (body b faults n t) (.ok (g t b))) (l : List γ) :
    Follows faults written ((l.foldlM (fun _ b => body b) ()) faults n t) (.ok (l.foldl g t)) :=
  .foldl (fun _ b n t => h b n t) l ()

theorem undoBlock_follows (md : Meta) :
    Follows faults returned (undoBlock height md faults n t) (.ok (t.undoBlock height md)) := by
  unfold undoBlock Store.undoBlock
  refine .query_bind fun n => ?_
  cases t.undoLog? height with
  | none => exact .pure md
  | some change =>
    refine .ok_bind (foldl_follows (fun k n t => undoCreated_follows k) change.created) ?_
    rintro - n t rfl
    refine .ok_bind (foldl_follows (fun k n t => undoSpent_follows k) change.spentKeys) ?_
    rintro - n t rfl
    refine .ok_bind (foldl_follows (fun o n t => skip_or_exec_follows (o.key ∈ change.created) (Store.putOrder · o))
      change.ordersPruned) ?_
    rintro - n t rfl
    refine .ok_bind (foldl_follows (g := Store.delUTXO) (fun k n t => .exec) change.utxosCreated) ?_
    rintro - n t rfl
    refine .ok_bind (foldl_follows (fun u n t => skip_or_exec_follows (u.key ∈ change.utxosCreated) (Store.putUTXO · u))
      change.utxosSpent) ?_
    rintro - n t rfl
    refine .exec_bind fun n => ?_
    dsimp only
    split_ifs
    · exact .query_bind fun n => .pure _
    · exact .pure md

end

end StoreTx
end Whippet.Indexer
