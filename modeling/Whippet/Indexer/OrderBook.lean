import Whippet.Indexer.Aggregates

/-! The order book through blocks and rollbacks. -/
namespace Whippet.Indexer
open Lib Primitives Script

def spentKeysOf (vins : List RPCVin) : List Outpoint :=
  (vins.filter fun vin => vin.coinbase = []).map fun vin => positionKey vin.txid vin.vout

def createdKeysOf (txid : Text) (vouts : List RPCVout) : List Outpoint :=
  (vouts.filter fun vout => (covenantOf? vout).isSome).map fun vout => positionKey txid vout.n

theorem spentKeysOf_cons (vin : RPCVin) (vins : List RPCVin) :
    spentKeysOf (vin :: vins) = spentKeysOf [vin] ++ spentKeysOf vins := by
  rw [← List.singleton_append, spentKeysOf, List.filter_append, List.map_append]
  rfl

theorem createdKeysOf_cons (txid : Text) (vout : RPCVout) (vouts : List RPCVout) :
    createdKeysOf txid (vout :: vouts) = createdKeysOf txid [vout] ++ createdKeysOf txid vouts := by
  rw [← List.singleton_append, createdKeysOf, List.filter_append, List.map_append]
  rfl

def RPCTx.spends (tx : RPCTx) : List Outpoint := spentKeysOf tx.vin

def RPCTx.creates (tx : RPCTx) : List Outpoint := createdKeysOf tx.txid tx.vout

/-- A transaction of the block spends the outpoint when its position is there: it was there before the block,
or an earlier transaction of the block created it. -/
def SpentIn (positions : Table Outpoint Position) (txs : List RPCTx) (k : Outpoint) : Prop :=
  ∃ pre tx post, txs = pre ++ tx :: post ∧ k ∈ tx.spends ∧ (k ∈ positions ∨ ∃ tx' ∈ pre, k ∈ tx'.creates)

/-- Rows stand under their own keys, and an order's position is unspent if it is there at all. -/
structure Store.BookOk (t : Store) : Prop where
  positions_keyed : Table.Keyed Position.key t.positions
  orders_keyed : Table.Keyed Order.key t.orders
  unspent : ∀ k o pos, t.orders.lookup k = some o → t.positions.lookup k = some pos → pos.spent = false

/-- The undo log of a block in progress tells the orders `orders` before the block from those now. -/
structure Pruned (orders : Table Outpoint Order) (t : BlockState) : Prop where
  kept : ∀ k o, t.store.orders.lookup k = some o → orders.lookup k = some o
  logged : ∀ o ∈ t.change.ordersPruned, orders.lookup o.key = some o ∧ t.store.orders.lookup o.key = none ∧
    o.key ∈ t.change.spentKeys
  all : ∀ k o, orders.lookup k = some o → t.store.orders.lookup k = some o ∨ o ∈ t.change.ordersPruned

section
variable {crypto : Crypto} {height : ℤ} {txid : Text} {k k' : Outpoint} {t t' : BlockState}
  {orders : Table Outpoint Order}

theorem spendPosition_orders (h : t.store.BookOk) : (spendPosition height txid k t).store.orders.lookup k' =
    if k' = k ∧ k ∈ t.store.positions then none else t.store.orders.lookup k' := by
  cases hpos : t.store.positions.lookup k with
  | none =>
    rw [spendPosition_eq_self (by simp [hpos]), if_neg]
    intro hk
    exact Finmap.lookup_eq_none.mp hpos hk.2
  | some pos =>
    have hmem : k ∈ t.store.positions := Finmap.mem_iff.mpr ⟨pos, hpos⟩
    simp only [hmem, and_true]
    cases hspent : pos.spent with
    | false =>
      rw [spendPosition_of_unspent h.positions_keyed hpos hspent]
      exact Table.lookup_erase_eq t.store.orders k k'
    | true =>
      have hall : ∀ p, t.store.positions.lookup k = some p → p.spent = true := by
        intro p hp
        obtain rfl := Option.some.inj (hpos.symm.trans hp)
        exact hspent
      rw [spendPosition_eq_self hall]
      split_ifs with hk
      · -- a spent position has no order
        cases horder : t.store.orders.lookup k' with
        | none => rfl
        | some o =>
          rw [hk] at horder
          have := h.unspent k o pos horder hpos
          simp [hspent] at this
      · rfl

theorem spendPosition_positions_mem (hkeyed : Table.Keyed Position.key t.store.positions) :
    k' ∈ (spendPosition height txid k t).store.positions ↔ k' ∈ t.store.positions := by
  cases hpos : t.store.positions.lookup k with
  | none => rw [spendPosition_eq_self (by simp [hpos])]
  | some pos =>
    cases hspent : pos.spent with
    | true =>
      rw [spendPosition_eq_self]
      intro p hp
      obtain rfl := Option.some.inj (hpos.symm.trans hp)
      exact hspent
    | false =>
      rw [spendPosition_of_unspent hkeyed hpos hspent]
      simp only [Store.spend, Finmap.mem_insert]
      constructor
      · rintro (rfl | hk)
        · exact Finmap.mem_iff.mpr ⟨pos, hpos⟩
        · exact hk
      · exact Or.inr

theorem Store.BookOk.position_spent (h : t.store.BookOk) (hpruned : Pruned orders t) :
    (spendPosition height txid k t).store.BookOk ∧ Pruned orders (spendPosition height txid k t) := by
  cases hpos : t.store.positions.lookup k with
  | none =>
    rw [spendPosition_eq_self (by simp [hpos])]
    exact ⟨h, hpruned⟩
  | some pos =>
    cases hspent : pos.spent with
    | true =>
      rw [spendPosition_eq_self]
      · exact ⟨h, hpruned⟩
      · intro p hp
        obtain rfl := Option.some.inj (hpos.symm.trans hp)
        exact hspent
    | false =>
      have hkey : pos.key = k := h.positions_keyed k pos hpos
      rw [spendPosition_of_unspent h.positions_keyed hpos hspent]
      have hother : ∀ k' o, (t.store.orders.erase k).lookup k' = some o →
          k' ≠ k ∧ t.store.orders.lookup k' = some o := by
        intro k' o hk'
        rw [Table.lookup_erase_eq] at hk'
        split_ifs at hk' with hne
        exact ⟨hne, hk'⟩
      refine ⟨⟨h.positions_keyed.insert (by simpa using hkey), h.orders_keyed.erase k, ?_⟩, ?_, ?_, ?_⟩
      · intro k' o p ho hp
        obtain ⟨hne, ho⟩ := hother k' o ho
        simp only [Store.spend, Table.lookup_insert_eq, if_neg hne] at hp
        exact h.unspent k' o p ho hp
      · intro k' o ho
        exact hpruned.kept k' o (hother k' o ho).2
      · intro o ho
        simp only [Store.spend, Table.lookup_erase_eq, List.mem_append, Option.mem_toList] at ho ⊢
        rcases ho with ho | ho
        · obtain ⟨hold, hgone, hkeys⟩ := hpruned.logged o ho
          exact ⟨hold, by rw [hgone, ite_self], Or.inl hkeys⟩
        · have hokey : o.key = k := h.orders_keyed k o ho
          exact ⟨hokey ▸ hpruned.kept k o ho, if_pos hokey, Or.inr (by simp [hokey])⟩
      · intro k' o ho
        simp only [Store.spend, Table.lookup_erase_eq, List.mem_append, Option.mem_toList]
        rcases hpruned.all k' o ho with hkept | hlogged
        · by_cases hk' : k' = k
          · exact Or.inr (Or.inr (hk' ▸ hkept))
          · exact Or.inl (by rw [if_neg hk', hkept])
        · exact Or.inr (Or.inl hlogged)

theorem spendUTXO_book (t : BlockState) : (spendUTXO k t).store.positions = t.store.positions ∧
    (spendUTXO k t).store.orders = t.store.orders ∧ (spendUTXO k t).change.ordersPruned = t.change.ordersPruned ∧
    (spendUTXO k t).change.spentKeys = t.change.spentKeys ∧ (spendUTXO k t).change.created = t.change.created := by
  unfold spendUTXO
  cases t.store.utxos.lookup k <;> exact ⟨rfl, rfl, rfl, rfl, rfl⟩

/-- What the inputs `vins` do to the book: the orders of the positions they spend are pruned. -/
structure SpendEffect (orders : Table Outpoint Order) (vins : List RPCVin) (t t' : BlockState) : Prop where
  book : t'.store.BookOk
  pruned : Pruned orders t'
  orders : ∀ k, t'.store.orders.lookup k =
    if k ∈ spentKeysOf vins ∧ k ∈ t.store.positions then none else t.store.orders.lookup k
  positions : ∀ k, k ∈ t'.store.positions ↔ k ∈ t.store.positions
  created : t'.change.created = t.change.created

theorem spendPosition_created (t : BlockState) : (spendPosition height txid k t).change.created = t.change.created := by
  unfold spendPosition
  dsimp only
  repeat' split
  all_goals rfl

theorem applyVin_effect (h : t.store.BookOk) (hpruned : Pruned orders t) (vin : RPCVin) :
    SpendEffect orders [vin] t (applyVin height txid t vin) := by
  unfold applyVin
  split_ifs with hcoinbase
  · refine ⟨h, hpruned, ?_, fun _ => Iff.rfl, rfl⟩
    intro k
    simp [spentKeysOf, hcoinbase]
  · have hkeys : spentKeysOf [vin] = [positionKey vin.txid vin.vout] := by simp [spentKeysOf, not_not.mp hcoinbase]
    have hspend : (spendPosition height txid (positionKey vin.txid vin.vout) t).store.BookOk ∧
        Pruned orders (spendPosition height txid (positionKey vin.txid vin.vout) t) := h.position_spent hpruned
    obtain ⟨hbook, hpruned'⟩ := hspend
    obtain ⟨hpos, horders, hlog, hspent, hcreated⟩ :=
      spendUTXO_book (k := positionKey vin.txid vin.vout) (spendPosition height txid (positionKey vin.txid vin.vout) t)
    refine ⟨⟨hpos ▸ hbook.positions_keyed, horders ▸ hbook.orders_keyed, ?_⟩, ⟨?_, ?_, ?_⟩, ?_, ?_, ?_⟩
    · rw [hpos, horders]
      exact hbook.unspent
    · rw [horders]
      exact hpruned'.kept
    · rw [horders, hlog, hspent]
      exact hpruned'.logged
    · rw [horders, hlog]
      exact hpruned'.all
    · intro k
      rw [horders, spendPosition_orders h]
      rw [hkeys]
      simp only [List.mem_singleton]
      split_ifs with h₁ h₂ h₂
      · rfl
      · exact absurd ⟨h₁.1, h₁.1 ▸ h₁.2⟩ h₂
      · exact absurd ⟨h₂.1, h₂.1 ▸ h₂.2⟩ h₁
      · rfl
    · intro k
      rw [hpos]
      exact spendPosition_positions_mem h.positions_keyed
    · rw [hcreated, spendPosition_created]

theorem applyVins_effect (h : t.store.BookOk) (hpruned : Pruned orders t) (vins : List RPCVin) :
    SpendEffect orders vins t (vins.foldl (applyVin height txid) t) := by
  induction vins generalizing t with
  | nil => exact ⟨h, hpruned, fun _ => by simp [spentKeysOf], fun _ => Iff.rfl, rfl⟩
  | cons vin vins ih =>
    have hone : SpendEffect orders [vin] t (applyVin height txid t vin) := applyVin_effect h hpruned vin
    have hrest := ih hone.book hone.pruned
    refine ⟨hrest.book, hrest.pruned, ?_, ?_, hrest.created.trans hone.created⟩
    · intro k
      rw [List.foldl_cons, hrest.orders, hone.orders]
      simp only [hone.positions, spentKeysOf_cons vin vins, List.mem_append]
      split_ifs <;> first | rfl | (exfalso; tauto)
    · intro k
      rw [List.foldl_cons, hrest.positions, hone.positions]

variable {positions : Table Outpoint Position} {pos : Position}

theorem mem_upsertPosition :
    k ∈ upsertPosition positions pos ↔ k = pos.key ∨ k ∈ positions := by
  unfold upsertPosition
  split <;> exact Finmap.mem_insert

theorem upsertPosition_unspent {p : Position} (hpos : pos.spent = false)
    (h : (upsertPosition positions pos).lookup pos.key = some p) : p.spent = false := by
  unfold upsertPosition at h
  cases hrow : positions.lookup pos.key with
  | none =>
    simp only [hrow, Finmap.lookup_insert, Option.some.injEq] at h
    rw [← h, hpos]
  | some row =>
    simp only [hrow, Finmap.lookup_insert, Option.some.injEq] at h
    rw [← h, Position.rewrite, hpos]

theorem lookup_upsertPosition_ne (hne : k ≠ pos.key) :
    (upsertPosition positions pos).lookup k = positions.lookup k := by
  unfold upsertPosition
  split <;> exact Finmap.lookup_insert_of_ne _ hne

theorem upsertPosition_keyed (h : Table.Keyed Position.key positions) :
    Table.Keyed Position.key (upsertPosition positions pos) := by
  unfold upsertPosition
  cases hrow : positions.lookup pos.key with
  | none => exact h.insert rfl
  | some row => exact h.insert (h pos.key row hrow)

/-- What the outputs `vouts` do to the book: nothing but positions at the covenants among them. -/
structure CreateEffect (orders : Table Outpoint Order) (tx : RPCTx) (vouts : List RPCVout) (t t' : BlockState) :
    Prop where
  book : t'.store.BookOk
  pruned : Pruned orders t'
  orders : t'.store.orders = t.store.orders
  positions : ∀ k, k ∈ t'.store.positions ↔ k ∈ t.store.positions ∨ k ∈ createdKeysOf tx.txid vouts
  created : t'.change.created = t.change.created ++ createdKeysOf tx.txid vouts

theorem applyVout_effect {tx : RPCTx} {vout : RPCVout} (h : t.store.BookOk) (hpruned : Pruned orders t)
    (hrun : applyVout crypto height tx t vout = .ok t') : CreateEffect orders tx [vout] t t' := by
  rcases applyVout_cases hrun with ⟨parsed, pos, hcov, hpos, rfl⟩ | ⟨utxo, -, hcov, rfl⟩ | ⟨hcov, rfl⟩
  · obtain ⟨hcreated, hkey⟩ := positionOf_created hcov hpos
    have hfalse : pos.spent = false := by rw [← hcreated.unspent]; rfl
    have hkeys : createdKeysOf tx.txid [vout] = [positionKey tx.txid vout.n] := by simp [createdKeysOf, hcov]
    refine ⟨⟨upsertPosition_keyed h.positions_keyed, h.orders_keyed, ?_⟩,
      ⟨hpruned.kept, hpruned.logged, hpruned.all⟩, rfl, ?_, by rw [hkeys]⟩
    · intro k o p ho hp
      simp only [Store.addToLineage, Store.putPosition] at ho hp
      by_cases hk : k = pos.key
      · exact upsertPosition_unspent hfalse (hk ▸ hp)
      · rw [lookup_upsertPosition_ne hk] at hp
        exact h.unspent k o p ho hp
    · intro k
      simp only [Store.addToLineage, Store.putPosition, mem_upsertPosition, hkey, hkeys, List.mem_singleton, or_comm]
  · refine ⟨⟨h.positions_keyed, h.orders_keyed, h.unspent⟩, ⟨hpruned.kept, hpruned.logged, hpruned.all⟩, rfl, ?_, ?_⟩ <;>
      simp [createdKeysOf, hcov, Store.putUTXO]
  · refine ⟨h, hpruned, rfl, ?_, ?_⟩ <;> simp [createdKeysOf, hcov]

theorem applyVouts_effect {tx : RPCTx} {vouts : List RPCVout} (h : t.store.BookOk) (hpruned : Pruned orders t)
    (hrun : vouts.foldlM (applyVout crypto height tx) t = .ok t') : CreateEffect orders tx vouts t t' := by
  induction vouts generalizing t with
  | nil =>
    obtain rfl : t = t' := by simpa using hrun
    exact ⟨h, hpruned, rfl, fun _ => by simp [createdKeysOf], by simp [createdKeysOf]⟩
  | cons vout vouts ih =>
    rw [List.foldlM_cons, bind_eq_ok] at hrun
    obtain ⟨t₁, hstep, hrun⟩ := hrun
    have hone := applyVout_effect h hpruned hstep
    have hrest := ih hone.book hone.pruned hrun
    refine ⟨hrest.book, hrest.pruned, hrest.orders.trans hone.orders, ?_, ?_⟩
    · intro k
      rw [hrest.positions, hone.positions, createdKeysOf_cons _ vout vouts, List.mem_append, or_assoc]
    · rw [hrest.created, hone.created, createdKeysOf_cons _ vout vouts, List.append_assoc]

theorem spentIn_concat {txs : List RPCTx} {tx : RPCTx} :
    SpentIn positions (txs ++ [tx]) k ↔
      SpentIn positions txs k ∨ (k ∈ tx.spends ∧ (k ∈ positions ∨ ∃ tx' ∈ txs, k ∈ tx'.creates)) := by
  constructor
  · rintro ⟨pre, tx', post, hsplit, hspends, hthere⟩
    rcases List.eq_nil_or_concat' post with rfl | ⟨post, last, rfl⟩
    · obtain ⟨rfl, htx⟩ := List.append_inj' hsplit rfl
      obtain rfl := List.head_eq_of_cons_eq htx
      exact Or.inr ⟨hspends, hthere⟩
    · rw [← List.cons_append, ← List.append_assoc] at hsplit
      exact Or.inl ⟨pre, tx', post, (List.append_inj' hsplit rfl).1, hspends, hthere⟩
  · rintro (⟨pre, tx', post, rfl, hspends, hthere⟩ | ⟨hspends, hthere⟩)
    · exact ⟨pre, tx', post ++ [tx], by simp, hspends, hthere⟩
    · exact ⟨txs, tx, [], rfl, hspends, hthere⟩

/-- The book in a block in progress, after the transactions `done` on the tables of `s`. -/
structure BookInv (s : Store) (done : List RPCTx) (t : BlockState) : Prop where
  book : t.store.BookOk
  pruned : Pruned s.orders t
  positions : ∀ k, k ∈ t.store.positions ↔ k ∈ s.positions ∨ ∃ tx ∈ done, k ∈ tx.creates
  spent : ∀ k, SpentIn s.positions done k → t.store.orders.lookup k = none
  unspent : ∀ k, ¬ SpentIn s.positions done k → t.store.orders.lookup k = s.orders.lookup k
  created : ∀ k, k ∈ t.change.created ↔ ∃ tx ∈ done, k ∈ tx.creates

theorem BookInv.tx {s : Store} {done : List RPCTx} {tx : RPCTx} (h : BookInv s done t)
    (hrun : applyTx crypto height t tx = .ok t') : BookInv s (done ++ [tx]) t' := by
  have hvins : SpendEffect s.orders tx.vin t (tx.vin.foldl (applyVin height tx.txid) t) :=
    applyVins_effect h.book h.pruned tx.vin
  have hvouts := applyVouts_effect hvins.book hvins.pruned hrun
  have hcreates : ∀ k, (∃ tx' ∈ done ++ [tx], k ∈ tx'.creates) ↔ (∃ tx' ∈ done, k ∈ tx'.creates) ∨ k ∈ tx.creates := by
    intro k
    simp only [List.mem_append, List.mem_singleton, or_and_right, exists_or, exists_eq_left]
  have horders : ∀ k, t'.store.orders.lookup k =
      if k ∈ tx.spends ∧ k ∈ t.store.positions then none else t.store.orders.lookup k := by
    intro k
    rw [hvouts.orders]
    exact hvins.orders k
  refine ⟨hvouts.book, hvouts.pruned, ?_, ?_, ?_, ?_⟩
  · intro k
    rw [hvouts.positions, hvins.positions, h.positions, hcreates, or_assoc]
    rfl
  · intro k hspent
    rw [horders]
    rcases spentIn_concat.mp hspent with hdone | ⟨hspends, hthere⟩
    · rw [h.spent k hdone, ite_self]
    · exact if_pos ⟨hspends, (h.positions k).mpr hthere⟩
  · intro k hunspent
    rw [spentIn_concat, not_or] at hunspent
    rw [horders, if_neg, h.unspent k hunspent.1]
    intro hspends
    exact hunspent.2 ⟨hspends.1, (h.positions k).mp hspends.2⟩
  · intro k
    rw [hvouts.created, hvins.created, List.mem_append, h.created, hcreates]
    rfl

theorem BookInv.txs {s : Store} {txs : List RPCTx} (h : s.BookOk)
    (hrun : applyTxs crypto height ⟨s, {}⟩ txs = .ok t') : BookInv s txs t' := by
  have hinit : BookInv s [] ⟨s, {}⟩ := by
    have hnone : ∀ k, ¬ SpentIn s.positions [] k := by
      rintro k ⟨pre, tx, post, hsplit, -⟩
      simp at hsplit
    refine ⟨h, ⟨fun _ _ ho => ho, by simp, fun _ _ ho => Or.inl ho⟩, by simp, ?_, fun _ _ => rfl, by simp⟩
    intro k hspent
    exact absurd hspent (hnone k)
  refine foldlM_ok (P := fun (done : List RPCTx) (t : BlockState) => BookInv s done t) hrun hinit ?_
  intro done tx t₁ t₂ _ hinv hstep
  exact hinv.tx hstep

end

/-- The orders after a rollback. An order of a position that the block created stays away. -/
theorem Store.undoChange_orders (t : Store) (ch : HeightChange) (k : Outpoint) :
    (t.undoChange ch).orders.lookup k =
      if k ∈ ch.created then t.orders.lookup k
      else (ch.ordersPruned.reverse.find? fun o => o.key = k).or (t.orders.lookup k) := by
  have hfold : ∀ (pruned : List Order) (t : Store),
      (pruned.foldl (fun t o => if o.key ∈ ch.created then t else t.putOrder o) t).orders.lookup k =
        if k ∈ ch.created then t.orders.lookup k
        else (pruned.reverse.find? fun o => o.key = k).or (t.orders.lookup k) := by
    intro pruned
    induction pruned with
    | nil => simp
    | cons o pruned ih =>
      intro t
      rw [List.foldl_cons, ih, List.reverse_cons, List.find?_append, Option.or_assoc]
      by_cases hk : o.key = k
      · by_cases hcreated : k ∈ ch.created
        · simp [hk, hcreated]
        · simp [hk, hcreated, Store.putOrder]
      · have hlookup : (if o.key ∈ ch.created then t else t.putOrder o).orders.lookup k = t.orders.lookup k := by
          split_ifs
          · rfl
          · exact Finmap.lookup_insert_of_ne _ (Ne.symm hk)
        simp [hk, hlookup]
  unfold Store.undoChange
  dsimp only
  rw [foldl_frame Store.orders (fun _ _ => by split_ifs <;> rfl) ch.utxosSpent,
    foldl_frame (f := Store.delUTXO) Store.orders (fun _ _ => rfl), hfold,
    foldl_frame Store.orders (fun t k => by rw [Store.undoSpent_eq]),
    foldl_frame Store.orders (fun t k => by rw [Store.undoCreated_eq])]

theorem Store.undoChange_orders_some {t : Store} {ch : HeightChange} {k : Outpoint} {o : Order}
    (h : (t.undoChange ch).orders.lookup k = some o) :
    t.orders.lookup k = some o ∨ (o ∈ ch.ordersPruned ∧ o.key = k ∧ k ∉ ch.created) := by
  rw [Store.undoChange_orders] at h
  split_ifs at h with hcreated
  · exact Or.inl h
  · rcases Option.or_eq_some_iff.mp h with hfind | ⟨-, hold⟩
    · exact Or.inr ⟨List.mem_reverse.mp (List.mem_of_find?_eq_some hfind), by simpa using List.find?_some hfind, hcreated⟩
    · exact Or.inl hold

theorem Store.undoChange_tombstones (t : Store) (ch : HeightChange) : (t.undoChange ch).tombstones = t.tombstones := by
  unfold Store.undoChange
  dsimp only
  rw [foldl_frame Store.tombstones (fun _ _ => by split_ifs <;> rfl) ch.utxosSpent,
    foldl_frame (f := Store.delUTXO) Store.tombstones (fun _ _ => rfl),
    foldl_frame Store.tombstones (fun _ _ => by split_ifs <;> rfl) ch.ordersPruned,
    foldl_frame Store.tombstones (fun t k => by rw [Store.undoSpent_eq]),
    foldl_frame Store.tombstones (fun t k => by rw [Store.undoCreated_eq])]

end Whippet.Indexer
