import Whippet.Indexer.Lineages
import Whippet.Indexer.Rollback

/-! The lineage summaries stay recomputed while a block is applied or rolled back. -/
namespace Whippet.Indexer
open Lib Primitives Script

section
variable {positions : Table Outpoint Position} {k : Outpoint} {pos pos' : Position}

theorem filter_unspent_cons (h : pos.spent = false) (s : Multiset Position) :
    (pos ::ₘ s).filter (fun pos => pos.spent = false) = pos ::ₘ s.filter fun pos => pos.spent = false :=
  Multiset.filter_cons_of_pos s h

theorem unspent_insert_new (hnone : positions.lookup k = none) (h : pos.spent = false) :
    unspent (positions.insert k pos) = pos ::ₘ unspent positions := by
  rw [unspent, Table.rows_insert_of_lookup_none hnone, filter_unspent_cons h, unspent]

theorem unspent_erase_unspent (hpos : positions.lookup k = some pos) (h : pos.spent = false) :
    unspent positions = pos ::ₘ unspent (positions.erase k) := by
  rw [unspent, Table.rows_of_lookup hpos, filter_unspent_cons h, unspent]

theorem unspent_erase_spent (hpos : positions.lookup k = some pos) (h : pos.spent = true) :
    unspent (positions.erase k) = unspent positions := by
  rw [unspent, unspent, Table.rows_of_lookup hpos, Multiset.filter_cons_of_neg _ (by simp [h])]

theorem unspent_insert_spent (h : pos.spent = true) :
    unspent (positions.insert k pos) = unspent (positions.erase k) := by
  rw [unspent, unspent, Table.rows_insert, Multiset.filter_cons_of_neg _ (by simp [h])]

theorem unspent_insert_unspent (h : pos.spent = false) :
    unspent (positions.insert k pos) = pos ::ₘ unspent (positions.erase k) := by
  rw [unspent, Table.rows_insert, filter_unspent_cons h, unspent]

theorem mem_unspent {pos : Position} : pos ∈ unspent positions ↔
    (∃ k, positions.lookup k = some pos) ∧ pos.spent = false := by
  rw [unspent, Multiset.mem_filter, Table.mem_rows]

end

theorem Core.RowsOk.value_nonneg {c : Core} (h : c.RowsOk) {pos : Position} (hpos : pos ∈ unspent c.positions) :
    0 ≤ pos.value := by
  obtain ⟨⟨k, hk⟩, -⟩ := mem_unspent.mp hpos
  exact (h.created k pos hk).value_nonneg

theorem Core.RowsOk.unspent_nodup {c : Core} (h : c.RowsOk) : ((unspent c.positions).map Position.key).Nodup :=
  Multiset.nodup_of_le (Multiset.map_le_map (Multiset.filter_le _ _)) h.positions_keyed.rows_nodup

/-- The summaries of a store are recomputed from its positions, which are sound. -/
structure Store.Summarised (t : Store) : Prop where
  recomputed : t.lineage.Recomputed (unspent t.positions)
  sound : LineagesSound (unspent t.positions)

section
variable {crypto : Crypto} {height : ℤ} {txid : Text} {k : Outpoint} {s : Core} {t t' : BlockState}

theorem Store.Summarised.withdraw {u : Store} (h : u.Summarised) (hrows : u.core.RowsOk) {pos : Position}
    (hpos : u.positions.lookup k = some pos) (hunspent : pos.spent = false) :
    (u.lineage.remove pos).Recomputed (unspent (u.positions.erase k)) ∧
      LineagesSound (unspent (u.positions.erase k)) := by
  have hbefore : unspent u.positions = pos ::ₘ unspent (u.positions.erase k) := unspent_erase_unspent hpos hunspent
  have hvalue : ∀ q ∈ pos ::ₘ unspent (u.positions.erase k), 0 ≤ q.value := by
    intro q hq
    exact hrows.value_nonneg (hbefore ▸ hq)
  have hcreated := hrows.created k pos hpos
  have hkeys := hrows.unspent_nodup
  obtain ⟨hrecomputed, hsound⟩ := h
  rw [hbefore] at hrecomputed hsound
  rw [Store.core, hbefore] at hkeys
  constructor
  · exact hrecomputed.remove hcreated.origin_ne hcreated.value_nonneg
      (fun q hq => hvalue q (Multiset.mem_cons_of_mem hq)) hsound hkeys
  · exact hsound.mono (Multiset.le_cons_self _ _) hvalue

theorem Store.Summarised.spend {u : Store} (h : u.Summarised) (hrows : u.core.RowsOk) {pos : Position}
    (hpos : u.positions.lookup k = some pos) (hunspent : pos.spent = false) (txid : Text) (height : ℤ) :
    (u.spend k (pos.markSpent txid height)).Summarised := by
  have hafter : unspent (u.spend k (pos.markSpent txid height)).positions = unspent (u.positions.erase k) :=
    unspent_insert_spent rfl
  obtain ⟨hrecomputed, hsound⟩ := h.withdraw hrows hpos hunspent
  exact ⟨hafter.symm ▸ hrecomputed, hafter.symm ▸ hsound⟩

theorem summarised_vin (hinv : BlockInv s t) (h : t.store.Summarised) (vin : RPCVin) :
    (applyVin height txid t vin).store.Summarised := by
  have hutxo : ∀ k (t : BlockState), t.store.Summarised → (spendUTXO k t).store.Summarised := by
    intro k t ht
    unfold spendUTXO
    split <;> exact ⟨ht.recomputed, ht.sound⟩
  unfold applyVin
  split_ifs
  · exact h
  apply hutxo
  cases hpos : t.store.positions.lookup (positionKey vin.txid vin.vout) with
  | none => rwa [spendPosition_eq_self (by simp [hpos])]
  | some pos =>
    cases hspent : pos.spent with
    | true => rwa [spendPosition_eq_self (by simp [hpos, hspent])]
    | false =>
      rw [spendPosition_of_unspent hinv.rows.positions_keyed hpos hspent]
      exact h.spend hinv.rows hpos hspent txid height

theorem summarised_vins (hinv : BlockInv s t) (h : t.store.Summarised) (vins : List RPCVin) :
    (vins.foldl (applyVin height txid) t).store.Summarised := by
  refine (List.foldlRecOn (motive := fun t' : BlockState => BlockInv s t' ∧ t'.store.Summarised)
    vins _ ⟨hinv, h⟩ ?_).2
  intro t' ht' vin _
  exact ⟨ht'.1.vin vin, summarised_vin ht'.1 ht'.2 vin⟩

theorem summarised_vout {tx : RPCTx} {v : RPCVout} {vouts : List RPCVout} (hinv : BlockInv s t)
    (hfresh : FreshOutputs s t tx (v :: vouts)) (hrun : applyVout crypto height tx t v = .ok t') :
    unspent t.store.positions ≤ unspent t'.store.positions ∧
      (LineagesSound (unspent t'.store.positions) → t.store.Summarised → t'.store.Summarised) := by
  have hkeys := (hfresh.tail hinv hrun).1.rows.unspent_nodup
  have hnew := hfresh.outputs v List.mem_cons_self
  simp only [HeightChange.outputs, List.mem_append, not_or] at hnew
  rcases applyVout_cases hrun with ⟨parsed, pos, hcov, hparsed, rfl⟩ | ⟨utxo, -, -, rfl⟩ | ⟨-, rfl⟩
  · obtain ⟨hcreated, hkey⟩ := positionOf_created hcov hparsed
    rw [← hkey] at hnew
    obtain ⟨habsent, -⟩ := upsertPosition_created hinv (by rw [hkey]; exact hfresh.positions v.n) hnew.1
    have hunspent : pos.spent = false := congrArg Position.spent hcreated.unspent.symm
    have hafter : unspent ((t.store.putPosition pos).addToLineage pos).positions =
        pos ::ₘ unspent t.store.positions := by
      simp only [Store.addToLineage, Store.putPosition, upsertPosition_of_none habsent]
      exact unspent_insert_new habsent hunspent
    refine ⟨hafter ▸ Multiset.le_cons_self _ _, fun hsound h => ⟨?_, hsound⟩⟩
    rw [Store.core, hafter] at hkeys
    rw [hafter] at hsound ⊢
    exact h.recomputed.add hcreated.origin_ne hcreated.value_nonneg hsound hkeys
  · exact ⟨le_refl _, fun _ h => ⟨h.recomputed, h.sound⟩⟩
  · exact ⟨le_refl _, fun _ h => h⟩

theorem summarised_vouts {tx : RPCTx} {vouts : List RPCVout} (hinv : BlockInv s t)
    (hfresh : FreshOutputs s t tx vouts) (hrun : vouts.foldlM (applyVout crypto height tx) t = .ok t') :
    unspent t.store.positions ≤ unspent t'.store.positions ∧
      (LineagesSound (unspent t'.store.positions) → t.store.Summarised → t'.store.Summarised) := by
  induction vouts generalizing t with
  | nil =>
    obtain rfl : t = t' := by simpa using hrun
    exact ⟨le_refl _, fun _ h => h⟩
  | cons v vouts ih =>
    rw [List.foldlM_cons, bind_eq_ok] at hrun
    obtain ⟨t₁, hstep, hrun⟩ := hrun
    obtain ⟨hinv₁, hrest⟩ := hfresh.tail hinv hstep
    obtain ⟨hle, hkeep⟩ := ih hinv₁ hrest hrun
    obtain ⟨hle₁, hkeep₁⟩ := summarised_vout hinv hfresh hstep
    refine ⟨le_trans hle₁ hle, fun hsound h => hkeep hsound (hkeep₁ ?_ h)⟩
    have hend := (hinv₁.vouts hrest hrun).1
    exact hsound.mono hle fun q hq => hend.rows.value_nonneg hq

/-- In every state between its transactions the block leaves the unspent positions sound. -/
def SoundBlock (crypto : Crypto) (height : ℤ) (t : BlockState) (txs : List RPCTx) : Prop :=
  ∀ done, done <+: txs → ∀ t', applyTxs crypto height t done = .ok t' → LineagesSound (unspent t'.store.positions)

theorem soundBlock_iff {txs : List RPCTx} : SoundBlock crypto height t txs ↔ ∀ done ∈ txs.inits,
    ∀ t' ∈ (applyTxs crypto height t done).toOption, LineagesSound (unspent t'.store.positions) := by
  simp only [SoundBlock, List.mem_inits, Option.mem_def, toOption_eq_some]

instance (txs : List RPCTx) : Decidable (SoundBlock crypto height t txs) := decidable_of_iff' _ soundBlock_iff

theorem summarised_txs {txs : List RPCTx} (hrows : t.store.core.RowsOk) (hchange : t.change = {})
    (hfresh : FreshTxids t.store.core txs) (hsound : SoundBlock crypto height t txs) (h : t.store.Summarised)
    (hrun : applyTxs crypto height t txs = .ok t') : t'.store.Summarised := by
  have hinit : BlockInv t.store.core t := by
    refine ⟨hrows, ?_, ?_, ?_, ?_, ?_⟩ <;> simp [hchange]
  refine (foldlM_split_ok (P := fun (done : List RPCTx) (t' : BlockState) => (BlockInv t.store.core t' ∧
    ∀ k ∈ t'.change.outputs, k.txid ∈ done.map RPCTx.txid) ∧ applyTxs crypto height t done = .ok t' ∧
    t'.store.Summarised) hrun ⟨⟨hinit, ?_⟩, rfl, h⟩ ?_).2.2
  · simp [hchange, HeightChange.outputs]
  · rintro done tx rest t₁ t₂ hsplit ⟨⟨hinv, hids⟩, hdone, h₁⟩ hstep
    have hmem : tx ∈ txs := by simp [← hsplit]
    have hnew : tx.txid ∉ done.map RPCTx.txid := hfresh.not_mem_done hsplit
    have hdone' : applyTxs crypto height t (done ++ [tx]) = .ok t₂ := by
      rw [applyTxs, List.foldlM_append, ← applyTxs, hdone, ok_bind, List.foldlM_cons, hstep, ok_bind]
      rfl
    have houts := hinv.freshOutputs height hids hnew (hfresh.positions tx hmem) (hfresh.utxos tx hmem)
    refine ⟨?_, hdone', ?_⟩
    · rw [List.map_append]
      exact hinv.tx hids hnew (hfresh.positions tx hmem) (hfresh.utxos tx hmem) hstep
    · apply (summarised_vouts (hinv.vins height tx.txid tx.vin).1 houts hstep).2
      · exact hsound (done ++ [tx]) ⟨rest, by simpa using hsplit⟩ t₂ hdone'
      · exact summarised_vins hinv h₁ tx.vin

end
theorem Core.RowsOk.erase {c : Core} (h : c.RowsOk) (k : Outpoint) : Core.RowsOk ⟨c.positions.erase k, c.utxos⟩ := by
  refine ⟨h.positions_keyed.erase k, h.utxos_keyed, ?_, ?_⟩ <;>
  · intro k' pos hlookup
    rw [Table.lookup_erase_eq] at hlookup
    split_ifs at hlookup
    first | exact h.created k' pos hlookup | exact h.clean k' pos hlookup

section
variable {t : Store} {k : Outpoint}

theorem summarised_undoCreated (hrows : t.core.RowsOk) (h : t.Summarised) :
    (t.undoCreated k).core.RowsOk ∧ (t.undoCreated k).Summarised := by
  constructor
  · rw [Store.undoCreated_eq]
    exact hrows.erase k
  unfold Store.undoCreated
  cases hpos : t.positions.lookup k with
  | none =>
    have hsame : t.delPosition k = t := by rw [Store.delPosition, Table.erase_of_lookup_none hpos]
    rwa [hsame]
  | some pos =>
    dsimp only
    split_ifs with hspent
    · have hunspent : unspent (t.positions.erase k) = unspent t.positions := unspent_erase_spent hpos hspent
      exact ⟨hunspent.symm ▸ h.recomputed, hunspent.symm ▸ h.sound⟩
    · obtain ⟨hrecomputed, hsound⟩ := h.withdraw hrows hpos (by simpa using hspent)
      exact ⟨hrecomputed, hsound⟩

theorem undoSpent_of_some (hkeyed : Table.Keyed Position.key t.positions) {pos : Position}
    (hpos : t.positions.lookup k = some pos) : t.undoSpent k =
      { t with positions := t.positions.insert k pos.markUnspent, lineage := t.lineage.add pos.markUnspent } := by
  have hkey : pos.key = k := hkeyed k pos hpos
  have hrow : t.positions.lookup pos.markUnspent.key = some pos := by rw [Position.key_markUnspent, hkey, hpos]
  simp only [Store.undoSpent, hpos, Store.putPosition, Store.addToLineage, upsertPosition_of_some hrow rfl,
    Position.key_markUnspent, hkey]

theorem undoSpent_of_none (hpos : t.positions.lookup k = none) : t.undoSpent k = t := by simp [Store.undoSpent, hpos]

theorem rowsOk_undoSpent (hrows : t.core.RowsOk) : (t.undoSpent k).core.RowsOk := by
  cases hpos : t.positions.lookup k with
  | none => rwa [undoSpent_of_none hpos]
  | some pos =>
    rw [undoSpent_of_some hrows.positions_keyed hpos]
    exact hrows.insert (hrows.positions_keyed k pos hpos) (hrows.created k pos hpos) fun _ => rfl

/-- Taking a spend back adds to the unspent positions, and the summaries follow while they stay sound. -/
theorem summarised_undoSpent (hrows : t.core.RowsOk)
    (hspent : ∀ pos, t.positions.lookup k = some pos → pos.spent = true) :
    unspent t.positions ≤ unspent (t.undoSpent k).positions ∧
      (LineagesSound (unspent (t.undoSpent k).positions) → t.Summarised → (t.undoSpent k).Summarised) := by
  cases hpos : t.positions.lookup k with
  | none =>
    rw [undoSpent_of_none hpos]
    exact ⟨le_refl _, fun _ h => h⟩
  | some pos =>
    have hcreated := hrows.created k pos hpos
    have hkeys := (rowsOk_undoSpent (k := k) hrows).unspent_nodup
    rw [undoSpent_of_some hrows.positions_keyed hpos] at hkeys ⊢
    have hafter : unspent (t.positions.insert k pos.markUnspent) = pos.markUnspent ::ₘ unspent t.positions := by
      rw [unspent_insert_unspent rfl, unspent_erase_spent hpos (hspent pos hpos)]
    refine ⟨hafter ▸ Multiset.le_cons_self _ _, fun hsound h => ⟨?_, hsound⟩⟩
    dsimp only [Store.core] at hkeys hsound ⊢
    rw [hafter] at hkeys hsound ⊢
    exact h.recomputed.add hcreated.origin_ne hcreated.value_nonneg hsound hkeys

theorem summarised_undoSpents {ks : List Outpoint} (hrows : t.core.RowsOk) (hnodup : ks.Nodup)
    (hspent : ∀ k ∈ ks, ∀ pos, t.positions.lookup k = some pos → pos.spent = true) :
    unspent t.positions ≤ unspent (ks.foldl Store.undoSpent t).positions ∧
      (LineagesSound (unspent (ks.foldl Store.undoSpent t).positions) → t.Summarised →
        (ks.foldl Store.undoSpent t).Summarised) := by
  induction ks generalizing t with
  | nil => exact ⟨le_refl _, fun _ h => h⟩
  | cons k ks ih =>
    obtain ⟨hhead, htail⟩ := List.nodup_cons.mp hnodup
    have hrows₁ : (t.undoSpent k).core.RowsOk := rowsOk_undoSpent hrows
    have hspent₁ : ∀ k' ∈ ks, ∀ pos, (t.undoSpent k).positions.lookup k' = some pos → pos.spent = true := by
      intro k' hk' pos hpos
      have hne : k' ≠ k := fun e => hhead (e ▸ hk')
      rw [Store.undoSpent_positions hrows.positions_keyed, if_neg hne] at hpos
      exact hspent k' (List.mem_cons_of_mem k hk') pos hpos
    obtain ⟨hle, hkeep⟩ := ih hrows₁ htail hspent₁
    obtain ⟨hle₁, hkeep₁⟩ := summarised_undoSpent hrows (hspent k List.mem_cons_self)
    have hend : (ks.foldl Store.undoSpent (t.undoSpent k)).core.RowsOk :=
      List.foldlRecOn (motive := fun t : Store => t.core.RowsOk) ks _ hrows₁ fun _ ht _ _ => rowsOk_undoSpent ht
    rw [List.foldl_cons]
    refine ⟨le_trans hle₁ hle, fun hsound h => hkeep hsound (hkeep₁ ?_ h)⟩
    exact hsound.mono hle fun q hq => hend.value_nonneg hq

theorem Store.Summarised.undoChange {ch : HeightChange} {s : Core} (h : t.Summarised) (hlog : Logged ch s t.core)
    (hrows : t.core.RowsOk) (hsound : LineagesSound (unspent s.positions)) : (t.undoChange ch).Summarised := by
  have hcreated : (ch.created.foldl Store.undoCreated t).core.RowsOk ∧
      (ch.created.foldl Store.undoCreated t).Summarised :=
    List.foldlRecOn (motive := fun t : Store => t.core.RowsOk ∧ t.Summarised) _ _ ⟨hrows, h⟩
      fun _ ht _ _ => summarised_undoCreated ht.1 ht.2
  have hspent : ∀ k ∈ ch.spentKeys, ∀ pos,
      (ch.created.foldl Store.undoCreated t).positions.lookup k = some pos → pos.spent = true := by
    intro k hk pos hpos
    obtain ⟨pos', hpos', hspent'⟩ := hlog.spent k hk
    rw [Store.foldl_undoCreated_positions] at hpos
    split_ifs at hpos
    obtain rfl := Option.some.inj (hpos'.symm.trans hpos)
    exact hspent'
  obtain ⟨-, hkeep⟩ := summarised_undoSpents hcreated.1 hlog.spent_nodup hspent
  -- the loops over the orders and the plain outputs leave positions and summaries alone
  have hframe : ∀ {γ : Type} (g : Store → γ), (∀ t o, g (t.putOrder o) = g t) → (∀ t k, g (t.delUTXO k) = g t) →
      (∀ t u, g (t.putUTXO u) = g t) →
      g (t.undoChange ch) = g (ch.spentKeys.foldl Store.undoSpent (ch.created.foldl Store.undoCreated t)) := by
    intro γ g horder hdel hput
    unfold Store.undoChange
    dsimp only
    rw [foldl_frame g (fun _ _ => by split_ifs <;> simp [hput]), foldl_frame g hdel,
      foldl_frame g (fun _ _ => by split_ifs <;> simp [horder])]
  have hpositions := hframe Store.positions (fun _ _ => rfl) (fun _ _ => rfl) (fun _ _ => rfl)
  have hlineage := hframe Store.lineage (fun _ _ => rfl) (fun _ _ => rfl) (fun _ _ => rfl)
  have hback : (t.undoChange ch).positions = s.positions := congrArg Core.positions (hlog.undo hrows)
  have hend := hkeep (by rw [← hpositions, hback]; exact hsound) hcreated.2
  exact ⟨by rw [hlineage, hpositions]; exact hend.recomputed, by rw [hback]; exact hsound⟩

end
end Whippet.Indexer
