import Whippet.Indexer.LineageRun
import Whippet.Indexer.Orders

/-! The index as a function of the surviving chain. -/
namespace Whippet.Indexer
open Lib Primitives Script

section
variable {crypto : Crypto} {height : ℤ} {txid : Text} {k : Outpoint} {t u t' : BlockState}

theorem spendPosition_core : (spendPosition height txid k t).store.core =
    ⟨match t.store.positions.lookup k with
      | none => t.store.positions
      | some pos => if pos.spent then t.store.positions else upsertPosition t.store.positions (pos.markSpent txid height),
      t.store.utxos⟩ := by
  unfold spendPosition
  cases t.store.positions.lookup k with
  | none => rfl
  | some pos =>
    dsimp only
    split_ifs
    · rfl
    · split <;> rfl

theorem spendUTXO_core : (spendUTXO k t).store.core = ⟨t.store.positions, t.store.utxos.erase k⟩ := by
  unfold spendUTXO
  cases h : t.store.utxos.lookup k with
  | none => rw [Table.erase_of_lookup_none h]; rfl
  | some utxo => rfl

theorem applyVin_congr (h : t.store.core = u.store.core) (vin : RPCVin) :
    (applyVin height txid t vin).store.core = (applyVin height txid u vin).store.core := by
  obtain ⟨hpos, hutxo⟩ := Core.mk.inj h
  unfold applyVin
  split_ifs
  · exact h
  · have hmid : (spendPosition height txid (positionKey vin.txid vin.vout) t).store.core =
        (spendPosition height txid (positionKey vin.txid vin.vout) u).store.core := by
      rw [spendPosition_core, spendPosition_core, hpos, hutxo]
    obtain ⟨hpos', hutxo'⟩ := Core.mk.inj hmid
    rw [spendUTXO_core, spendUTXO_core, hpos', hutxo']

theorem applyVout_congr {tx : RPCTx} {vout : RPCVout} (h : t.store.core = u.store.core)
    (hrun : applyVout crypto height tx t vout = .ok t') :
    ∃ u', applyVout crypto height tx u vout = .ok u' ∧ t'.store.core = u'.store.core := by
  obtain ⟨hpos, hutxo⟩ := Core.mk.inj h
  unfold applyVout at hrun ⊢
  cases hcov : covenantOf? vout with
  | some parsed =>
    simp only [hcov, bind_eq_ok, pure_eq_ok] at hrun
    obtain ⟨pos, hparsed, rfl⟩ := hrun
    refine ⟨_, by simp only [hparsed, ok_bind]; rfl, ?_⟩
    simp only [Store.core, Store.addToLineage, Store.putPosition, hpos, hutxo]
  | none =>
    simp only [hcov] at hrun
    cases hp : parseP2PKHScript? vout.scriptPubKey with
    | some hash160 =>
      simp only [hp] at hrun
      obtain rfl := Except.ok.inj hrun
      exact ⟨_, rfl, by simp only [Store.core, Store.putUTXO, hpos, hutxo]⟩
    | none =>
      simp only [hp] at hrun
      obtain rfl := Except.ok.inj hrun
      exact ⟨u, rfl, h⟩

theorem applyVins_congr (h : t.store.core = u.store.core) (vins : List RPCVin) :
    (vins.foldl (applyVin height txid) t).store.core = (vins.foldl (applyVin height txid) u).store.core := by
  induction vins generalizing t u with
  | nil => exact h
  | cons vin vins ih => exact ih (applyVin_congr h vin)

theorem applyTx_congr {tx : RPCTx} (h : t.store.core = u.store.core) (hrun : applyTx crypto height t tx = .ok t') :
    ∃ u', applyTx crypto height u tx = .ok u' ∧ t'.store.core = u'.store.core :=
  foldlM_rel (R := fun t u : BlockState => t.store.core = u.store.core) hrun (applyVins_congr h tx.vin)
    fun _ _ _ _ _ hcore hstep => applyVout_congr hcore hstep

theorem applyTxs_congr {txs : List RPCTx} (h : t.store.core = u.store.core)
    (hrun : applyTxs crypto height t txs = .ok t') :
    ∃ u', applyTxs crypto height u txs = .ok u' ∧ t'.store.core = u'.store.core :=
  foldlM_rel (R := fun t u : BlockState => t.store.core = u.store.core) hrun h
    fun _ _ _ _ _ hcore hstep => applyTx_congr hcore hstep

end
section
variable {crypto : Crypto} {height : ℤ} {t t' : BlockState} {γ : Type}

/-- What none of the statements that a block issues touches, the block does not touch. -/
theorem applyTxs_frame (g : Store → γ) (hput : ∀ t pos, g (Store.putPosition t pos) = g t)
    (hremove : ∀ t pos, g (Store.removeFromLineage t pos) = g t) (hadd : ∀ t pos, g (Store.addToLineage t pos) = g t)
    (horder : ∀ t k, g (Store.delOrder t k) = g t) (hdel : ∀ t k, g (Store.delUTXO t k) = g t)
    (hutxo : ∀ t u, g (Store.putUTXO t u) = g t) {txs : List RPCTx} (hrun : applyTxs crypto height t txs = .ok t') :
    g t'.store = g t.store := by
  have hvin : ∀ txid (t : BlockState) vin, g (applyVin height txid t vin).store = g t.store := by
    intro txid t vin
    have hposition : ∀ k, g (spendPosition height txid k t).store = g t.store := by
      intro k
      unfold spendPosition
      dsimp only
      repeat' split
      all_goals simp only [horder, hremove, hput]
    have hspend : ∀ k (t : BlockState), g (spendUTXO k t).store = g t.store := by
      intro k t
      unfold spendUTXO
      split <;> simp only [hdel]
    unfold applyVin
    split_ifs
    · rfl
    · rw [hspend, hposition]
  have hvout : ∀ tx (t t' : BlockState) vout, applyVout crypto height tx t vout = .ok t' → g t'.store = g t.store := by
    intro tx t t' vout hrun
    rcases applyVout_cases hrun with ⟨parsed, pos, -, -, rfl⟩ | ⟨utxo, -, -, rfl⟩ | ⟨-, rfl⟩
    · rw [hadd, hput]
    · rw [hutxo]
    · rfl
  refine foldlM_ok (P := fun (_ : List RPCTx) (t' : BlockState) => g t'.store = g t.store) hrun rfl ?_
  intro _ tx t₁ t₂ _ h₁ hstep
  refine (foldlM_ok (P := fun (_ : List RPCVout) (t' : BlockState) => g t'.store = g t.store) hstep ?_ ?_)
  · exact (foldl_frame (fun t : BlockState => g t.store) (hvin tx.txid) tx.vin t₁).trans h₁
  · intro _ vout t₁ t₂ _ h₁ hstep
    exact (hvout tx t₁ t₂ vout hstep).trans h₁

theorem applyTxs_heights {txs : List RPCTx} (hrun : applyTxs crypto height t txs = .ok t') :
    t'.store.heights = t.store.heights :=
  applyTxs_frame Store.heights (fun _ _ => rfl) (fun _ _ => rfl) (fun _ _ => rfl) (fun _ _ => rfl) (fun _ _ => rfl)
    (fun _ _ => rfl) hrun

end

theorem undoChange_heights (t : Store) (ch : HeightChange) : (t.undoChange ch).heights = t.heights := by
  unfold Store.undoChange
  dsimp only
  rw [foldl_frame Store.heights (fun _ _ => by split_ifs <;> rfl),
    foldl_frame (f := Store.delUTXO) Store.heights (fun _ _ => rfl),
    foldl_frame Store.heights (fun _ _ => by split_ifs <;> rfl),
    foldl_frame Store.heights (fun t k => by rw [Store.undoSpent_eq]),
    foldl_frame Store.heights (fun t k => by rw [Store.undoCreated_eq])]

/-- The heights table after a block: its own record, and records of before that the window keeps. -/
structure RecordedBlock (block : RPCBlock) (ch : HeightChange) (before after : Table ℤ HeightRow) : Prop where
  own : after.lookup block.height = some ⟨block.hash, some ch⟩
  other : ∀ h row, h ≠ block.height → after.lookup h = some row → before.lookup h = some row

section
variable {crypto : Crypto} {s : Index} {block : RPCBlock}

theorem applyBlock_ok (hok : (s.applyBlock crypto block).storeErr = none) :
    ∃ t heights prunedBelow, s.storeErr = none ∧ applyTxs crypto block.height ⟨s.store, {}⟩ block.tx = .ok t ∧
      RecordedBlock block t.change s.store.heights heights ∧
      s.applyBlock crypto block = { s with
        store := { t.store with heights := heights }, tipHeight := block.height, tipHash := block.hash,
        prunedBelow := prunedBelow } := by
  unfold Index.applyBlock Index.write at hok ⊢
  have herr : s.storeErr = none := by
    cases herr : s.storeErr with
    | none => rfl
    | some e => simp [herr] at hok
  rw [herr] at hok ⊢
  cases hrun : applyTxs crypto block.height ⟨s.store, {}⟩ block.tx with
  | error e => simp [Store.applyBlock, hrun] at hok
  | ok t =>
    have hsame : t.store.heights = s.store.heights := applyTxs_heights hrun
    have hother : ∀ h row, h ≠ block.height →
        (t.store.heights.insert block.height ⟨block.hash, some t.change⟩).lookup h = some row →
          s.store.heights.lookup h = some row := by
      intro h row hne hrow
      rwa [Table.lookup_insert_eq, if_neg hne, hsame] at hrow
    simp only [Store.applyBlock, hrun, ok_bind]
    split_ifs with hprune
    · refine ⟨t, _, _, trivial, rfl, ⟨?_, ?_⟩, rfl⟩
      · rw [Table.lookup_deleteWhere, if_neg (by omega)]
        exact Finmap.lookup_insert _
      · intro h row hne hrow
        rw [Table.lookup_deleteWhere] at hrow
        split_ifs at hrow
        exact hother h row hne hrow
    · exact ⟨t, _, _, trivial, rfl, ⟨Finmap.lookup_insert _, hother⟩, rfl⟩

/-- A block is taken or refused by the tables it finds alone, and so are its effects on them. -/
theorem applyBlock_congr {r : Index} (hcore : s.store.core = r.store.core) (herr : r.storeErr = none)
    (hok : (s.applyBlock crypto block).storeErr = none) : (r.applyBlock crypto block).storeErr = none ∧
      (s.applyBlock crypto block).store.core = (r.applyBlock crypto block).store.core := by
  obtain ⟨t, heights, prunedBelow, -, hrun, -, heq⟩ := applyBlock_ok hok
  obtain ⟨u, hrun', hcore'⟩ := applyTxs_congr (u := ⟨r.store, {}⟩) hcore hrun
  have hok' : (r.applyBlock crypto block).storeErr = none := by
    unfold Index.applyBlock Index.write
    simp only [herr, Store.applyBlock, hrun', ok_bind]
    split_ifs <;> rfl
  obtain ⟨u', heights', prunedBelow', -, hrun'', -, heq'⟩ := applyBlock_ok hok'
  obtain rfl : u = u' := Except.ok.inj (hrun'.symm.trans hrun'')
  refine ⟨hok', ?_⟩
  rw [heq, heq']
  exact hcore'

theorem undoBlock_tip {ch : HeightChange} (herr : s.storeErr = none) (hlog : s.store.undoLog? s.tipHeight = some ch) :
    s.undoBlock s.tipHeight = { s with
      store := { s.store.undoChange ch with heights := s.store.heights.erase s.tipHeight }
      tipHeight := s.tipHeight - 1
      tipHash := ((s.store.heights.lookup (s.tipHeight - 1)).map HeightRow.hash).getD [] } := by
  have hheights := undoChange_heights s.store ch
  have hne : ¬ s.tipHeight - 1 = s.tipHeight := by omega
  unfold Index.undoBlock Index.write
  simp only [herr, Store.undoBlock, hlog, if_true, Store.delHeight, Store.hashAt, hheights, Table.lookup_erase_eq,
    if_neg hne]

end
end Whippet.Indexer
