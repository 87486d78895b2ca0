import Whippet.Indexer.BlockLog
import Whippet.Lib.Run

/-! Rolling a block back restores the positions and the plain outputs. -/
namespace Whippet.Indexer
open Lib

namespace Store

variable {t : Store} {k k' : Outpoint}

theorem undoCreated_eq (t : Store) (k : Outpoint) :
    t.undoCreated k = { t with positions := t.positions.erase k, lineage := (t.undoCreated k).lineage } := by
  unfold undoCreated
  cases t.positions.lookup k with
  | none => rfl
  | some pos =>
    dsimp only
    split_ifs <;> rfl

theorem undoSpent_eq (t : Store) (k : Outpoint) :
    t.undoSpent k = { t with positions := (t.undoSpent k).positions, lineage := (t.undoSpent k).lineage } := by
  unfold undoSpent
  cases t.positions.lookup k <;> rfl

theorem undoSpent_positions (hkeyed : Table.Keyed Position.key t.positions) :
    (t.undoSpent k).positions.lookup k' =
      if k' = k then (t.positions.lookup k').map Position.markUnspent else t.positions.lookup k' := by
  unfold undoSpent
  cases h : t.positions.lookup k with
  | none =>
    split_ifs with hk
    · rw [hk, h, Option.map_none]
    · rfl
  | some pos =>
    have hkey : pos.key = k := hkeyed k pos h
    have hrow : t.positions.lookup pos.markUnspent.key = some pos := by rw [Position.key_markUnspent, hkey, h]
    simp only [addToLineage, putPosition, upsertPosition_of_some hrow rfl, Position.key_markUnspent, hkey,
      Table.lookup_insert_eq]
    split_ifs with hk
    · rw [hk, h, Option.map_some]
    · rfl

theorem undoSpent_keyed (hkeyed : Table.Keyed Position.key t.positions) :
    Table.Keyed Position.key (t.undoSpent k).positions := by
  intro k' pos h
  rw [undoSpent_positions hkeyed] at h
  split_ifs at h
  · obtain ⟨pos', hpos', rfl⟩ := Option.map_eq_some_iff.mp h
    exact hkeyed k' pos' hpos'
  · exact hkeyed k' pos h

theorem foldl_undoCreated_positions (ks : List Outpoint) (t : Store) :
    (ks.foldl undoCreated t).positions.lookup k' = if k' ∈ ks then none else t.positions.lookup k' := by
  induction ks generalizing t with
  | nil => simp
  | cons k ks ih =>
    rw [List.foldl_cons, ih, undoCreated_eq]
    simp only [List.mem_cons, Table.lookup_erase_eq]
    split_ifs <;> tauto

theorem foldl_undoSpent_positions (ks : List Outpoint) {t : Store} (hkeyed : Table.Keyed Position.key t.positions) :
    (ks.foldl undoSpent t).positions.lookup k' =
      if k' ∈ ks then (t.positions.lookup k').map Position.markUnspent else t.positions.lookup k' := by
  induction ks generalizing t with
  | nil => simp
  | cons k ks ih =>
    rw [List.foldl_cons, ih (undoSpent_keyed hkeyed), undoSpent_positions hkeyed]
    by_cases hk : k' = k
    · simp [hk, Function.comp_def]
    · simp [hk]

theorem foldl_delUTXO_utxos (ks : List Outpoint) (t : Store) :
    (ks.foldl delUTXO t).utxos.lookup k' = if k' ∈ ks then none else t.utxos.lookup k' := by
  induction ks generalizing t with
  | nil => simp
  | cons k ks ih =>
    rw [List.foldl_cons, ih]
    simp only [delUTXO, List.mem_cons, Table.lookup_erase_eq]
    split_ifs <;> tauto

theorem putUTXO_utxos (t : Store) (utxo : UTXO) : (t.putUTXO utxo).utxos.lookup k' =
    (t.utxos.lookup k').or (if utxo.key = k' then some utxo else none) := by
  simp only [putUTXO, insertUTXO]
  cases h : t.utxos.lookup utxo.key with
  | none =>
    simp only [Table.lookup_insert_eq, eq_comm]
    split_ifs with hk
    · rw [hk, h, Option.none_or]
    · rw [Option.or_none]
  | some row =>
    dsimp only
    split_ifs with hk
    · rw [← hk, h, Option.some_or]
    · rw [Option.or_none]

theorem foldl_putUTXO_utxos (skip : List Outpoint) (spent : List UTXO) (t : Store) (hk : k' ∉ skip) :
    (spent.foldl (fun t utxo => if utxo.key ∈ skip then t else t.putUTXO utxo) t).utxos.lookup k' =
      (t.utxos.lookup k').or (spent.find? fun u => u.key = k') := by
  induction spent generalizing t with
  | nil => simp
  | cons utxo spent ih =>
    rw [List.foldl_cons, ih, List.find?_cons]
    by_cases hkey : utxo.key = k'
    · rw [if_neg (hkey ▸ hk), putUTXO_utxos]
      simp [hkey]
    · simp only [hkey, decide_false]
      split_ifs
      · rfl
      · rw [putUTXO_utxos, if_neg hkey, Option.or_none]

theorem foldl_putUTXO_skip (skip : List Outpoint) (spent : List UTXO) (t : Store) (hk : k' ∈ skip) :
    (spent.foldl (fun t utxo => if utxo.key ∈ skip then t else t.putUTXO utxo) t).utxos.lookup k' =
      t.utxos.lookup k' := by
  apply foldl_frame fun t : Store => t.utxos.lookup k'
  intro t utxo
  split_ifs with hskip
  · rfl
  · rw [putUTXO_utxos, if_neg (by rintro rfl; exact hskip hk), Option.or_none]

theorem foldl_undoCreated_keyed (ks : List Outpoint) (hkeyed : Table.Keyed Position.key t.positions) :
    Table.Keyed Position.key (ks.foldl undoCreated t).positions := by
  intro k pos h
  rw [foldl_undoCreated_positions] at h
  split_ifs at h
  exact hkeyed k pos h

theorem undoChange_positions (ch : HeightChange) (hkeyed : Table.Keyed Position.key t.positions) :
    (t.undoChange ch).positions.lookup k =
      if k ∈ ch.created then none
      else if k ∈ ch.spentKeys then (t.positions.lookup k).map Position.markUnspent
      else t.positions.lookup k := by
  unfold undoChange
  dsimp only
  rw [foldl_frame positions (fun _ _ => by split_ifs <;> rfl) ch.utxosSpent,
    foldl_frame (f := delUTXO) positions (fun _ _ => rfl),
    foldl_frame positions (fun _ _ => by split_ifs <;> rfl) ch.ordersPruned,
    foldl_undoSpent_positions _ (foldl_undoCreated_keyed _ hkeyed), foldl_undoCreated_positions]
  by_cases hk : k ∈ ch.created <;> simp [hk]

theorem undoChange_utxos (t : Store) (ch : HeightChange) : (t.undoChange ch).utxos.lookup k =
    if k ∈ ch.utxosCreated then none else (t.utxos.lookup k).or (ch.utxosSpent.find? fun u => u.key = k) := by
  have hpositions : (ch.spentKeys.foldl undoSpent (ch.created.foldl undoCreated t)).utxos = t.utxos := by
    rw [foldl_frame utxos (fun t k => by rw [undoSpent_eq]), foldl_frame utxos (fun t k => by rw [undoCreated_eq])]
  unfold undoChange
  dsimp only
  split_ifs with hk
  · rw [foldl_putUTXO_skip _ _ _ hk, foldl_delUTXO_utxos, if_pos hk]
  · rw [foldl_putUTXO_utxos _ _ _ hk, foldl_delUTXO_utxos, if_neg hk,
      foldl_frame utxos (fun _ _ => by split_ifs <;> rfl) ch.ordersPruned, hpositions]

end Store

/-- Following the log of a block back leads to the tables before the block. -/
theorem Logged.undo {ch : HeightChange} {s : Core} {t : Store} (h : Logged ch s t.core) (hrows : t.core.RowsOk) :
    (t.undoChange ch).core = s := by
  apply Core.ext
  · apply Finmap.ext_lookup
    intro k
    exact (Store.undoChange_positions ch hrows.positions_keyed).trans (h.positions k).symm
  · apply Finmap.ext_lookup
    intro k
    exact (Store.undoChange_utxos t ch).trans (h.utxos k).symm

end Whippet.Indexer
