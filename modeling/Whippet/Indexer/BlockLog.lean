import Whippet.Indexer.Blocks

/-! What the undo log of a block says of the positions and the plain outputs before the block. -/
namespace Whippet.Indexer
open Lib Primitives Script

@[simp] theorem Position.key_markSpent (pos : Position) (txid : Text) (height : ℤ) :
    (pos.markSpent txid height).key = pos.key := rfl

@[simp] theorem Position.key_markUnspent (pos : Position) : pos.markUnspent.key = pos.key := rfl

@[simp] theorem Position.markUnspent_markSpent (pos : Position) (txid : Text) (height : ℤ) :
    (pos.markSpent txid height).markUnspent = pos.markUnspent := rfl

@[simp] theorem Position.markUnspent_markUnspent (pos : Position) : pos.markUnspent.markUnspent = pos.markUnspent :=
  rfl

theorem upsertPosition_of_none {positions : Table Outpoint Position} {pos : Position}
    (h : positions.lookup pos.key = none) : upsertPosition positions pos = positions.insert pos.key pos := by
  simp [upsertPosition, h]

theorem upsertPosition_of_some {positions : Table Outpoint Position} {pos row : Position}
    (h : positions.lookup pos.key = some row) (hsame : row.rewrite pos = pos) :
    upsertPosition positions pos = positions.insert pos.key pos := by
  simp [upsertPosition, h, hsame]

/-- The tables that the chain alone determines row by row. -/
@[ext] structure Core where
  positions : Table Outpoint Position
  utxos : Table Outpoint UTXO

def Store.core (t : Store) : Core := ⟨t.positions, t.utxos⟩

structure Position.Created (pos : Position) : Prop where
  unspent : pos.markUnspent = pos
  value_nonneg : 0 ≤ pos.value
  origin_ne : pos.origin ≠ []

/-- Rows stand under their own keys, and an unspent position is as it was created. -/
structure Core.RowsOk (c : Core) : Prop where
  positions_keyed : Table.Keyed Position.key c.positions
  utxos_keyed : Table.Keyed UTXO.key c.utxos
  created : ∀ k pos, c.positions.lookup k = some pos → pos.markUnspent.Created
  clean : ∀ k pos, c.positions.lookup k = some pos → pos.spent = false → pos.markUnspent = pos

/-- The undo log tells the tables `s` before the block from the tables `t` after it. -/
structure Logged (ch : HeightChange) (s t : Core) : Prop where
  positions : ∀ k, s.positions.lookup k =
    if k ∈ ch.created then none
    else if k ∈ ch.spentKeys then (t.positions.lookup k).map Position.markUnspent
    else t.positions.lookup k
  utxos : ∀ k, s.utxos.lookup k =
    if k ∈ ch.utxosCreated then none else (t.utxos.lookup k).or (ch.utxosSpent.find? fun u => u.key = k)
  spent_nodup : ch.spentKeys.Nodup
  spent : ∀ k ∈ ch.spentKeys, ∃ pos, t.positions.lookup k = some pos ∧ pos.spent = true
  gone : ∀ u ∈ ch.utxosSpent, u.key ∉ ch.utxosCreated → t.utxos.lookup u.key = none

section
variable {crypto : Crypto} {height : ℤ} {txid : Text} {k : Outpoint} {t t' : BlockState} {pos : Position}

theorem spendPosition_eq_self (h : ∀ pos, t.store.positions.lookup k = some pos → pos.spent = true) :
    spendPosition height txid k t = t := by
  unfold spendPosition
  cases hpos : t.store.positions.lookup k with
  | none => rfl
  | some pos => simp [h pos hpos]

def Store.spend (s : Store) (k : Outpoint) (pos : Position) : Store :=
  { s with positions := s.positions.insert k pos, lineage := s.lineage.remove pos, orders := s.orders.erase k }

theorem spendPosition_of_unspent (hkeyed : Table.Keyed Position.key t.store.positions)
    (h : t.store.positions.lookup k = some pos) (hunspent : pos.spent = false) :
    spendPosition height txid k t = ⟨t.store.spend k (pos.markSpent txid height),
      { t.change with
        spentKeys := t.change.spentKeys ++ [k]
        ordersPruned := t.change.ordersPruned ++ (t.store.orders.lookup k).toList }⟩ := by
  have hkey : pos.key = k := hkeyed k pos h
  have hrow : t.store.positions.lookup (pos.markSpent txid height).key = some pos := by
    rw [Position.key_markSpent, hkey, h]
  have hput : t.store.putPosition (pos.markSpent txid height) =
      { t.store with positions := t.store.positions.insert k (pos.markSpent txid height) } := by
    rw [Store.putPosition, upsertPosition_of_some hrow rfl, Position.key_markSpent, hkey]
  unfold spendPosition
  simp only [h, hunspent, hput, Store.removeFromLineage, Store.spend, Store.delOrder]
  cases horder : t.store.orders.lookup k with
  | none => simp [Table.erase_of_lookup_none horder]
  | some order => simp

theorem spendUTXO_eq_self (h : t.store.utxos.lookup k = none) : spendUTXO k t = t := by simp [spendUTXO, h]

theorem spendUTXO_of_some {utxo : UTXO} (h : t.store.utxos.lookup k = some utxo) : spendUTXO k t =
    ⟨t.store.delUTXO k, { t.change with utxosSpent := t.change.utxosSpent ++ [utxo] }⟩ := by
  simp [spendUTXO, h]

theorem positionOf_created {tx : RPCTx} {vout : RPCVout} {parsed : UapOutput} (hcov : covenantOf? vout = some parsed)
    (h : positionOf crypto height tx vout parsed = .ok pos) :
    pos.Created ∧ pos.key = positionKey tx.txid vout.n := by
  rw [positionOf, bind_eq_ok] at h
  obtain ⟨origin, horigin, hpos⟩ := h
  obtain rfl := pure_eq_ok.mp hpos
  have hlength : origin.length = 32 := by
    unfold originOf at horigin
    split_ifs at horigin with hmint
    · exact uapOriginFromOutpoint_length horigin
    · obtain rfl := Except.ok.inj horigin
      exact (covenantOf?_wellFormed hcov).origin_size (by simpa using hmint)
  refine ⟨⟨rfl, by simp, ?_⟩, rfl⟩
  intro hnil
  have := congrArg List.length hnil
  rw [hexEncode_length, hlength] at this
  contradiction

theorem applyVout_cases {tx : RPCTx} {vout : RPCVout} (h : applyVout crypto height tx t vout = .ok t') :
    (∃ parsed pos, covenantOf? vout = some parsed ∧ positionOf crypto height tx vout parsed = .ok pos ∧
      t' = ⟨(t.store.putPosition pos).addToLineage pos,
        { t.change with created := t.change.created ++ [positionKey tx.txid vout.n] }⟩) ∨
    (∃ utxo : UTXO, utxo.key = positionKey tx.txid vout.n ∧ covenantOf? vout = none ∧
      t' = ⟨t.store.putUTXO utxo,
        { t.change with utxosCreated := t.change.utxosCreated ++ [positionKey tx.txid vout.n] }⟩) ∨
    (covenantOf? vout = none ∧ t' = t) := by
  unfold applyVout at h
  cases hcov : covenantOf? vout with
  | some parsed =>
    simp only [hcov, bind_eq_ok, pure_eq_ok] at h
    obtain ⟨pos, hpos, rfl⟩ := h
    exact Or.inl ⟨parsed, pos, rfl, hpos, rfl⟩
  | none =>
    simp only [hcov] at h
    cases hp : parseP2PKHScript? vout.scriptPubKey with
    | some hash160 =>
      simp only [hp] at h
      obtain rfl := Except.ok.inj h
      exact Or.inr (Or.inl ⟨_, rfl, rfl, rfl⟩)
    | none =>
      simp only [hp] at h
      obtain rfl := Except.ok.inj h
      exact Or.inr (Or.inr ⟨rfl, rfl⟩)

end

/-- The invariant of a block in progress that started from the tables `s`. -/
structure BlockInv (s : Core) (t : BlockState) : Prop where
  rows : t.store.core.RowsOk
  logged : Logged t.change s t.store.core

section
variable {crypto : Crypto} {height : ℤ} {txid : Text} {k : Outpoint} {s : Core} {t t' : BlockState}

theorem Core.RowsOk.insert {c : Core} (h : c.RowsOk) {pos : Position} (hkey : pos.key = k)
    (hcreated : pos.markUnspent.Created) (hclean : pos.spent = false → pos.markUnspent = pos) :
    Core.RowsOk ⟨c.positions.insert k pos, c.utxos⟩ := by
  refine ⟨h.positions_keyed.insert hkey, h.utxos_keyed, ?_, ?_⟩ <;>
  · intro k' pos' hlookup
    rw [Table.lookup_insert_eq] at hlookup
    split_ifs at hlookup
    · obtain rfl := Option.some.inj hlookup
      assumption
    · first | exact h.created k' pos' hlookup | exact h.clean k' pos' hlookup

theorem BlockInv.position_spent (h : BlockInv s t) : BlockInv s (spendPosition height txid k t) := by
  cases hpos : t.store.positions.lookup k with
  | none => rwa [spendPosition_eq_self (by simp [hpos])]
  | some pos =>
    cases hspent : pos.spent with
    | true =>
      rwa [spendPosition_eq_self]
      intro pos' hpos'
      obtain rfl := Option.some.inj (hpos.symm.trans hpos')
      exact hspent
    | false =>
      have hclean := h.rows.clean k pos hpos hspent
      have hnew : k ∉ t.change.spentKeys := by
        intro hmem
        obtain ⟨pos', hpos', hspent'⟩ := h.logged.spent k hmem
        obtain rfl := Option.some.inj (hpos.symm.trans hpos')
        rw [hspent] at hspent'
        contradiction
      rw [spendPosition_of_unspent h.rows.positions_keyed hpos hspent]
      refine ⟨h.rows.insert (h.rows.positions_keyed k pos hpos) (h.rows.created k pos hpos) (by simp [Position.markSpent]),
        ?_, h.logged.utxos, ?_, ?_, h.logged.gone⟩
      · intro k'
        have hbefore := h.logged.positions k'
        simp only [Store.core, Store.spend, List.mem_append, List.mem_singleton, Table.lookup_insert_eq] at hbefore ⊢
        by_cases hk : k' = k
        · subst hk
          simp only [hbefore, hnew, hpos, or_true, if_true, if_false, Option.map_some,
            Position.markUnspent_markSpent, hclean]
        · simpa only [hk, or_false, if_false] using hbefore
      · rw [← List.concat_eq_append]
        exact h.logged.spent_nodup.concat hnew
      · intro k' hk'
        by_cases hk : k' = k
        · exact ⟨pos.markSpent txid height, by simp [Store.core, Store.spend, Table.lookup_insert_eq, hk], rfl⟩
        · obtain ⟨pos', hpos', hspent'⟩ := h.logged.spent k' (by simpa [hk] using hk')
          exact ⟨pos', by simpa [Store.core, Store.spend, Table.lookup_insert_eq, hk] using hpos', hspent'⟩

theorem BlockInv.utxo_spent (h : BlockInv s t) : BlockInv s (spendUTXO k t) := by
  cases hutxo : t.store.utxos.lookup k with
  | none => rwa [spendUTXO_eq_self hutxo]
  | some utxo =>
    have hkey : utxo.key = k := h.rows.utxos_keyed k utxo hutxo
    rw [spendUTXO_of_some hutxo]
    refine ⟨⟨h.rows.positions_keyed, h.rows.utxos_keyed.erase k, h.rows.created, h.rows.clean⟩,
      h.logged.positions, ?_, h.logged.spent_nodup, h.logged.spent, ?_⟩
    · intro k'
      have hbefore := h.logged.utxos k'
      simp only [Store.core, Store.delUTXO, Table.lookup_erase_eq, List.find?_append] at hbefore ⊢
      by_cases hcreated : k' ∈ t.change.utxosCreated
      · simpa [hcreated] using hbefore
      · by_cases hk : k' = k
        · subst hk
          -- an earlier entry of the log under this key would be a row that is gone
          have hfirst : t.change.utxosSpent.find? (fun u => u.key = utxo.key) = none := by
            rw [List.find?_eq_none]
            intro u hu heq
            have heq : u.key = utxo.key := of_decide_eq_true heq
            have hgone := h.logged.gone u hu (by rwa [heq, hkey])
            rw [heq, hkey] at hgone
            exact absurd (hgone.symm.trans hutxo) (by simp)
          rw [hkey] at hfirst
          simpa [hcreated, hutxo, hfirst, hkey] using hbefore
        · have hother : ¬ utxo.key = k' := by rw [hkey]; exact fun e => hk e.symm
          simpa [hcreated, hk, hother] using hbefore
    · intro u hu hnot
      rw [List.mem_append, List.mem_singleton] at hu
      simp only [Store.core, Store.delUTXO, Table.lookup_erase_eq]
      split_ifs with hk
      · rfl
      · rcases hu with hu | rfl
        · exact h.logged.gone u hu hnot
        · exact absurd hkey hk

theorem BlockInv.vin (h : BlockInv s t) (vin : RPCVin) : BlockInv s (applyVin height txid t vin) := by
  unfold applyVin
  split_ifs
  · exact h
  · exact h.position_spent.utxo_spent

theorem upsertPosition_created {pos : Position} (h : BlockInv s t) (hnone : s.positions.lookup pos.key = none)
    (hnew : pos.key ∉ t.change.created) : t.store.positions.lookup pos.key = none ∧ pos.key ∉ t.change.spentKeys := by
  have hbefore := h.logged.positions pos.key
  rw [hnone, if_neg hnew] at hbefore
  split_ifs at hbefore with hspent
  · obtain ⟨pos', hpos', -⟩ := h.logged.spent _ hspent
    rw [hpos'] at hbefore
    contradiction
  · exact ⟨hbefore.symm, hspent⟩

def HeightChange.outputs (ch : HeightChange) : List Outpoint := ch.created ++ ch.utxosCreated

theorem BlockInv.vout {tx : RPCTx} {vout : RPCVout} (h : BlockInv s t)
    (hpos : s.positions.lookup (positionKey tx.txid vout.n) = none)
    (hutxo : s.utxos.lookup (positionKey tx.txid vout.n) = none)
    (hnew : positionKey tx.txid vout.n ∉ t.change.outputs) (hrun : applyVout crypto height tx t vout = .ok t') :
    BlockInv s t' ∧ ∀ k ∈ t'.change.outputs, k ∈ t.change.outputs ∨ k = positionKey tx.txid vout.n := by
  simp only [HeightChange.outputs, List.mem_append, not_or] at hnew
  rcases applyVout_cases hrun with ⟨parsed, pos, hcov, hparsed, rfl⟩ | ⟨utxo, hkey, -, rfl⟩ | ⟨-, rfl⟩
  · obtain ⟨hcreated, hkey⟩ := positionOf_created hcov hparsed
    rw [← hkey] at hpos hnew ⊢
    obtain ⟨habsent, hunspent⟩ := upsertPosition_created h hpos hnew.1
    have hput : (t.store.putPosition pos).positions = t.store.positions.insert pos.key pos :=
      upsertPosition_of_none habsent
    constructor
    · refine ⟨?_, ?_, h.logged.utxos, h.logged.spent_nodup, ?_, h.logged.gone⟩
      · simp only [Store.core, Store.addToLineage, hput]
        exact h.rows.insert rfl (by rwa [hcreated.unspent]) fun _ => hcreated.unspent
      · intro k
        have hbefore := h.logged.positions k
        simp only [Store.core, Store.addToLineage, hput, Table.lookup_insert_eq, List.mem_append,
          List.mem_singleton] at hbefore ⊢
        by_cases hk : k = pos.key
        · rw [hk, hpos, if_pos (Or.inr rfl)]
        · simpa [hk] using hbefore
      · intro k hk
        have hne : k ≠ pos.key := fun e => hunspent (e ▸ hk)
        simpa [Store.core, Store.addToLineage, hput, Table.lookup_insert_eq, hne] using h.logged.spent k hk
    · intro k hk
      simp only [HeightChange.outputs, List.mem_append, List.mem_singleton] at hk ⊢
      tauto
  · have habsent : t.store.utxos.lookup utxo.key = none := by
      have hbefore := h.logged.utxos utxo.key
      rw [hkey, hutxo, if_neg hnew.2] at hbefore
      rw [hkey]
      exact (Option.or_eq_none_iff.mp hbefore.symm).1
    have hput : (t.store.putUTXO utxo).utxos = t.store.utxos.insert utxo.key utxo := by
      simp [Store.putUTXO, insertUTXO, habsent]
    rw [← hkey] at hutxo hnew ⊢
    constructor
    · refine ⟨?_, h.logged.positions, ?_, h.logged.spent_nodup, h.logged.spent, ?_⟩
      · simp only [Store.core, hput]
        exact ⟨h.rows.positions_keyed, h.rows.utxos_keyed.insert rfl, h.rows.created, h.rows.clean⟩
      · intro k
        have hbefore := h.logged.utxos k
        simp only [Store.core, hput, Table.lookup_insert_eq, List.mem_append, List.mem_singleton] at hbefore ⊢
        by_cases hk : k = utxo.key
        · rw [hk, hutxo, if_pos (Or.inr rfl)]
        · simpa [hk] using hbefore
      · intro u hu hnot
        simp only [List.mem_append, List.mem_singleton, not_or] at hnot
        simp only [Store.core, hput, Table.lookup_insert_eq, if_neg hnot.2]
        exact h.logged.gone u hu hnot.1
    · intro k hk
      simp only [HeightChange.outputs, List.mem_append, List.mem_singleton] at hk ⊢
      tauto
  · exact ⟨h, fun k hk => Or.inl hk⟩

theorem outputs_spendPosition : (spendPosition height txid k t).change.outputs = t.change.outputs := by
  unfold spendPosition
  dsimp only
  repeat' split
  all_goals rfl

theorem outputs_spendUTXO : (spendUTXO k t).change.outputs = t.change.outputs := by
  unfold spendUTXO
  split <;> rfl

theorem outputs_applyVin (vin : RPCVin) : (applyVin height txid t vin).change.outputs = t.change.outputs := by
  unfold applyVin
  split_ifs
  · rfl
  · rw [outputs_spendUTXO, outputs_spendPosition]

end

/-- The transactions use txids that the tables do not know, each once. -/
structure FreshTxids (c : Core) (txs : List RPCTx) : Prop where
  nodup : (txs.map RPCTx.txid).Nodup
  positions : ∀ tx ∈ txs, ∀ n, c.positions.lookup (positionKey tx.txid n) = none
  utxos : ∀ tx ∈ txs, ∀ n, c.utxos.lookup (positionKey tx.txid n) = none

theorem freshTxids_iff {c : Core} {txs : List RPCTx} : FreshTxids c txs ↔ (txs.map RPCTx.txid).Nodup ∧
    (∀ k ∈ c.positions.keys, ∀ tx ∈ txs, k.txid ≠ tx.txid) ∧ ∀ k ∈ c.utxos.keys, ∀ tx ∈ txs, k.txid ≠ tx.txid := by
  have hkeys : ∀ {ν : Type} (t : Table Outpoint ν), (∀ tx ∈ txs, ∀ n, t.lookup (positionKey tx.txid n) = none) ↔
      ∀ k ∈ t.keys, ∀ tx ∈ txs, k.txid ≠ tx.txid := by
    intro ν t
    simp only [Finmap.lookup_eq_none, Finmap.mem_keys]
    constructor
    · rintro h ⟨txid, n⟩ hk tx htx rfl
      exact h tx htx n hk
    · intro h tx htx n hk
      exact h _ hk tx htx rfl
  rw [← hkeys, ← hkeys]
  exact ⟨fun h => ⟨h.nodup, h.positions, h.utxos⟩, fun h => ⟨h.1, h.2.1, h.2.2⟩⟩

instance (c : Core) (txs : List RPCTx) : Decidable (FreshTxids c txs) := decidable_of_iff' _ freshTxids_iff

theorem FreshTxids.not_mem_done {c : Core} {txs done rest : List RPCTx} {tx : RPCTx} (h : FreshTxids c txs)
    (hsplit : done ++ tx :: rest = txs) : tx.txid ∉ done.map RPCTx.txid := by
  have hnodup := h.nodup
  rw [← hsplit, List.map_append, List.map_cons, List.nodup_append] at hnodup
  intro hmem
  exact hnodup.2.2 _ hmem _ List.mem_cons_self rfl

section
variable {crypto : Crypto} {height : ℤ} {s : Core} {t t' : BlockState}

theorem BlockInv.vins (h : BlockInv s t) (height : ℤ) (txid : Text) (vins : List RPCVin) :
    BlockInv s (vins.foldl (applyVin height txid) t) ∧
      (vins.foldl (applyVin height txid) t).change.outputs = t.change.outputs := by
  refine List.foldlRecOn (motive := fun t' : BlockState => BlockInv s t' ∧ t'.change.outputs = t.change.outputs)
    vins _ ⟨h, rfl⟩ ?_
  intro t' ht' vin _
  exact ⟨ht'.1.vin vin, (outputs_applyVin vin).trans ht'.2⟩

/-- Outputs still to come, under outpoints that neither the tables `s` nor the block so far use. -/
structure FreshOutputs (s : Core) (t : BlockState) (tx : RPCTx) (vouts : List RPCVout) : Prop where
  nodup : (vouts.map RPCVout.n).Nodup
  positions : ∀ n, s.positions.lookup (positionKey tx.txid n) = none
  utxos : ∀ n, s.utxos.lookup (positionKey tx.txid n) = none
  outputs : ∀ v ∈ vouts, positionKey tx.txid v.n ∉ t.change.outputs

theorem FreshOutputs.tail {tx : RPCTx} {v : RPCVout} {vouts : List RPCVout} (hfresh : FreshOutputs s t tx (v :: vouts))
    (h : BlockInv s t) (hrun : applyVout crypto height tx t v = .ok t') :
    BlockInv s t' ∧ FreshOutputs s t' tx vouts := by
  obtain ⟨hinv, hkeys⟩ := h.vout (hfresh.positions v.n) (hfresh.utxos v.n) (hfresh.outputs v List.mem_cons_self) hrun
  obtain ⟨hhead, htail⟩ := List.nodup_cons.mp (List.map_cons ▸ hfresh.nodup)
  refine ⟨hinv, htail, hfresh.positions, hfresh.utxos, ?_⟩
  intro w hw hmem
  rcases hkeys _ hmem with hold | heq
  · exact hfresh.outputs w (List.mem_cons_of_mem v hw) hold
  · have hn : w.n = v.n := congrArg Outpoint.vout heq
    exact hhead (hn ▸ List.mem_map_of_mem hw)

theorem BlockInv.vouts {tx : RPCTx} {vouts : List RPCVout} (h : BlockInv s t) (hfresh : FreshOutputs s t tx vouts)
    (hrun : vouts.foldlM (applyVout crypto height tx) t = .ok t') :
    BlockInv s t' ∧ ∀ k ∈ t'.change.outputs, k ∈ t.change.outputs ∨ k.txid = tx.txid := by
  induction vouts generalizing t with
  | nil =>
    obtain rfl : t = t' := by simpa using hrun
    exact ⟨h, fun k hk => Or.inl hk⟩
  | cons v vouts ih =>
    rw [List.foldlM_cons, bind_eq_ok] at hrun
    obtain ⟨t₁, hstep, hrun⟩ := hrun
    obtain ⟨hinv, hrest⟩ := hfresh.tail h hstep
    obtain ⟨hend, hkeys⟩ := ih hinv hrest hrun
    refine ⟨hend, fun k hk => ?_⟩
    rcases hkeys k hk with hk | hk
    · have hstepkeys := (h.vout (hfresh.positions v.n) (hfresh.utxos v.n) (hfresh.outputs v List.mem_cons_self) hstep).2
      exact (hstepkeys k hk).imp id (congrArg Outpoint.txid)
    · exact Or.inr hk

theorem BlockInv.freshOutputs {tx : RPCTx} {ids : List Text} (h : BlockInv s t) (height : ℤ)
    (hids : ∀ k ∈ t.change.outputs, k.txid ∈ ids) (hnew : tx.txid ∉ ids)
    (hpos : ∀ n, s.positions.lookup (positionKey tx.txid n) = none)
    (hutxo : ∀ n, s.utxos.lookup (positionKey tx.txid n) = none) :
    FreshOutputs s (tx.vin.foldl (applyVin height tx.txid) t) tx tx.vout := by
  refine ⟨tx.vout_nodup, hpos, hutxo, ?_⟩
  intro v _ hmem
  rw [(h.vins height tx.txid tx.vin).2] at hmem
  exact hnew (hids _ hmem)

theorem BlockInv.tx {tx : RPCTx} {ids : List Text} (h : BlockInv s t)
    (hids : ∀ k ∈ t.change.outputs, k.txid ∈ ids) (hnew : tx.txid ∉ ids)
    (hpos : ∀ n, s.positions.lookup (positionKey tx.txid n) = none)
    (hutxo : ∀ n, s.utxos.lookup (positionKey tx.txid n) = none) (hrun : applyTx crypto height t tx = .ok t') :
    BlockInv s t' ∧ ∀ k ∈ t'.change.outputs, k.txid ∈ ids ++ [tx.txid] := by
  obtain ⟨hvins, houts⟩ := h.vins height tx.txid tx.vin
  obtain ⟨hend, hkeys⟩ := hvins.vouts (h.freshOutputs height hids hnew hpos hutxo) hrun
  refine ⟨hend, fun k hk => ?_⟩
  rw [houts] at hkeys
  rcases hkeys k hk with hold | heq
  · exact List.mem_append_left _ (hids k hold)
  · exact List.mem_append_right _ (List.mem_singleton.mpr heq)

/-- A block of fresh transactions ends with a log that tells the tables it started from. -/
theorem BlockInv.txs {txs : List RPCTx} (hrows : t.store.core.RowsOk) (hchange : t.change = {})
    (hfresh : FreshTxids t.store.core txs) (hrun : applyTxs crypto height t txs = .ok t') :
    BlockInv t.store.core t' := by
  have hinit : BlockInv t.store.core t := by
    refine ⟨hrows, ?_, ?_, ?_, ?_, ?_⟩ <;> simp [hchange]
  refine (foldlM_split_ok (P := fun (done : List RPCTx) (t' : BlockState) => BlockInv t.store.core t' ∧
    ∀ k ∈ t'.change.outputs, k.txid ∈ done.map RPCTx.txid) hrun ⟨hinit, ?_⟩ ?_).1
  · simp [hchange, HeightChange.outputs]
  · intro done tx rest t₁ t₂ hsplit ht₁ hstep
    have hmem : tx ∈ txs := by simp [← hsplit]
    have hnew : tx.txid ∉ done.map RPCTx.txid := hfresh.not_mem_done hsplit
    rw [List.map_append]
    exact ht₁.1.tx ht₁.2 hnew (hfresh.positions tx hmem) (hfresh.utxos tx hmem) hstep

end

end Whippet.Indexer
