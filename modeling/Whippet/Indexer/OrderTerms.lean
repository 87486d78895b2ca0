import Whippet.Indexer.OrderRun

/-! Orders against the positions they sell. -/
namespace Whippet.Indexer
open Lib Primitives Script

structure Terms where
  multiplier : ℤ
  pubKey : Text
  value : ℤ
  origin : Text
  deriving DecidableEq

def Position.terms (pos : Position) : Terms := ⟨pos.multiplier, pos.pubKey, pos.value, pos.origin⟩

def Order.terms (o : Order) : Terms := ⟨o.multiplier, o.pubKey, o.backingValue, o.origin⟩

def HasTerms (crypto : Crypto) (known : RPCTx → Prop) (k : Outpoint) (terms : Terms) : Prop :=
  ∃ tx vout parsed height pos, known tx ∧ vout ∈ tx.vout ∧ covenantOf? vout = some parsed ∧
    positionOf crypto height tx vout parsed = .ok pos ∧ pos.key = k ∧ pos.terms = terms

def ConsistentTxids (known : RPCTx → Prop) : Prop := ∀ tx tx', known tx → known tx' → tx.txid = tx'.txid → tx = tx'

def KnownEvent (known : RPCTx → Prop) : Event → Prop
  | .applyBlock block => ∀ tx ∈ block.tx, known tx
  | _ => True

section
variable {crypto : Crypto} {known : RPCTx → Prop} {height : ℤ} {txid : Text} {k : Outpoint} {t t' : BlockState}
  {orders : Table Outpoint Order}

theorem HasTerms.unique (hknown : ConsistentTxids known) {terms terms' : Terms} (h : HasTerms crypto known k terms)
    (h' : HasTerms crypto known k terms') : terms = terms' := by
  obtain ⟨tx, vout, parsed, height, pos, htx, hvout, hcov, hpos, hkey, rfl⟩ := h
  obtain ⟨tx', vout', parsed', height', pos', htx', hvout', hcov', hpos', hkey', rfl⟩ := h'
  have hsame : positionKey tx.txid vout.n = positionKey tx'.txid vout'.n := by
    rw [← (positionOf_created hcov hpos).2, ← (positionOf_created hcov' hpos').2, hkey, hkey']
  obtain rfl := hknown tx tx' htx htx' (congrArg Outpoint.txid hsame)
  obtain rfl := List.inj_on_of_nodup_map tx.vout_nodup hvout hvout' (congrArg Outpoint.vout hsame)
  obtain rfl := Option.some.inj (hcov.symm.trans hcov')
  simp only [positionOf, bind_eq_ok, pure_eq_ok] at hpos hpos'
  obtain ⟨origin, horigin, rfl⟩ := hpos
  obtain ⟨origin', horigin', rfl⟩ := hpos'
  obtain rfl := Except.ok.inj (horigin.symm.trans horigin')
  rfl

variable (crypto known) in
/-- Every position stands under its own key, with the terms of its transaction. -/
structure PositionsOk (positions : Table Outpoint Position) : Prop where
  keyed : Table.Keyed Position.key positions
  terms : ∀ k pos, positions.lookup k = some pos → HasTerms crypto known k pos.terms

theorem PositionsOk.spent (h : PositionsOk crypto known t.store.positions) :
    PositionsOk crypto known (spendPosition height txid k t).store.positions := by
  cases hpos : t.store.positions.lookup k with
  | none => rwa [spendPosition_eq_self (by simp [hpos])]
  | some pos =>
    cases hspent : pos.spent with
    | true =>
      rwa [spendPosition_eq_self]
      intro p hp
      obtain rfl := Option.some.inj (hpos.symm.trans hp)
      exact hspent
    | false =>
      rw [spendPosition_of_unspent h.keyed hpos hspent]
      refine ⟨h.keyed.insert (h.keyed k pos hpos), ?_⟩
      intro k' p hp
      simp only [Store.spend, Table.lookup_insert_eq] at hp
      split_ifs at hp with hk
      · obtain rfl := Option.some.inj hp
        rw [hk]
        exact h.terms k pos hpos
      · exact h.terms k' p hp

theorem PositionsOk.vin (h : PositionsOk crypto known t.store.positions) (vin : RPCVin) :
    PositionsOk crypto known (applyVin height txid t vin).store.positions := by
  unfold applyVin
  split_ifs
  · exact h
  · rw [(spendUTXO_book _).1]
    exact h.spent

theorem PositionsOk.vout {tx : RPCTx} {vout : RPCVout} (h : PositionsOk crypto known t.store.positions)
    (hknown : ConsistentTxids known) (htx : known tx) (hvout : vout ∈ tx.vout)
    (hrun : applyVout crypto height tx t vout = .ok t') : PositionsOk crypto known t'.store.positions := by
  rcases applyVout_cases hrun with ⟨parsed, pos, hcov, hpos, rfl⟩ | ⟨utxo, -, -, rfl⟩ | ⟨-, rfl⟩
  · have hterms : HasTerms crypto known pos.key pos.terms :=
      ⟨tx, vout, parsed, height, pos, htx, hvout, hcov, hpos, rfl, rfl⟩
    refine ⟨upsertPosition_keyed h.keyed, ?_⟩
    intro k p hp
    simp only [Store.addToLineage, Store.putPosition] at hp
    by_cases hk : k = pos.key
    · rw [hk] at hp ⊢
      unfold upsertPosition at hp
      cases hrow : t.store.positions.lookup pos.key with
      | none =>
        simp only [hrow, Finmap.lookup_insert, Option.some.injEq] at hp
        rwa [← hp]
      | some row =>
        -- a second write keeps multiplier, key and value, and brings the origin, which is the same
        simp only [hrow, Finmap.lookup_insert, Option.some.injEq] at hp
        have hrowTerms := h.terms pos.key row hrow
        have horigin : row.origin = pos.origin := congrArg Terms.origin (hrowTerms.unique hknown hterms)
        rw [← hp]
        simp only [Position.terms, Position.rewrite, ← horigin]
        exact hrowTerms
    · rw [lookup_upsertPosition_ne hk] at hp
      exact h.terms k p hp
  · exact h
  · exact h

theorem PositionsOk.txs {txs : List RPCTx} (h : PositionsOk crypto known t.store.positions)
    (hknown : ConsistentTxids known) (htxs : ∀ tx ∈ txs, known tx) (hrun : applyTxs crypto height t txs = .ok t') :
    PositionsOk crypto known t'.store.positions := by
  refine foldlM_ok (P := fun (_ : List RPCTx) (t : BlockState) => PositionsOk crypto known t.store.positions) hrun h ?_
  intro _ tx t₁ t₂ htx h₁ hstep
  refine foldlM_ok (P := fun (_ : List RPCVout) (t : BlockState) => PositionsOk crypto known t.store.positions) hstep
    ?_ ?_
  · exact List.foldlRecOn (motive := fun t : BlockState => PositionsOk crypto known t.store.positions) _ _ h₁
      fun t ht vin _ => ht.vin vin
  · intro _ vout t₁ t₂ hvout h₁ hstep
    exact h₁.vout hknown (htxs tx htx) hvout hstep

theorem PositionsOk.undoChange {t : Store} (h : PositionsOk crypto known t.positions) (ch : HeightChange) :
    PositionsOk crypto known (t.undoChange ch).positions := by
  have hrow : ∀ k pos, (t.undoChange ch).positions.lookup k = some pos →
      ∃ p, t.positions.lookup k = some p ∧ pos.key = p.key ∧ pos.terms = p.terms := by
    intro k pos hpos
    rw [Store.undoChange_positions ch h.keyed] at hpos
    split_ifs at hpos
    · obtain ⟨p, hp, rfl⟩ := Option.map_eq_some_iff.mp hpos
      exact ⟨p, hp, rfl, rfl⟩
    · exact ⟨pos, hpos, rfl, rfl⟩
  constructor
  · intro k pos hpos
    obtain ⟨p, hp, hkey, -⟩ := hrow k pos hpos
    rw [hkey, h.keyed k p hp]
  · intro k pos hpos
    obtain ⟨p, hp, -, hterms⟩ := hrow k pos hpos
    rw [hterms]
    exact h.terms k p hp

variable (crypto known) in
/-- Positions, orders and logged orders have the terms of their transactions. -/
structure Store.TermsOk (t : Store) : Prop where
  positions : PositionsOk crypto known t.positions
  orders : ∀ k o, t.orders.lookup k = some o → HasTerms crypto known k o.terms
  logs : ∀ h ch, t.undoLog? h = some ch → ∀ o ∈ ch.ordersPruned, HasTerms crypto known o.key o.terms

theorem Store.TermsOk.empty (tombstones : Table Outpoint (Text × ℤ)) :
    Store.TermsOk crypto known { tombstones := tombstones } := by
  refine ⟨⟨Table.Keyed.empty, ?_⟩, ?_, ?_⟩ <;> simp [Store.undoLog?]

theorem Store.TermsOk.step {ec : Btcec} {s : Index} {e : Event} {t : Store} (h : s.store.TermsOk crypto known)
    (hrelay : s.store.RelayOk) (hknown : ConsistentTxids known) (hevent : KnownEvent known e)
    (hstep : StoreStep crypto ec s e t) : t.TermsOk crypto known := by
  cases hstep with
  | refused => exact h
  | applied hrun hrecorded =>
    have hbook := BookInv.txs hrelay.book hrun
    refine ⟨h.positions.txs hknown hevent hrun, ?_, ?_⟩
    · intro k o ho
      exact h.orders k o (hbook.pruned.kept k o ho)
    · intro height ch hlog o ho
      rcases hrecorded.undoLog hlog with rfl | hold
      · exact h.orders o.key o (hbook.pruned.logged o ho).1
      · exact h.logs height ch hold o ho
  | undone hlog =>
    refine ⟨h.positions.undoChange _, ?_, ?_⟩
    · intro k o ho
      rcases Store.undoChange_orders_some ho with hold | ⟨hmem, rfl, -⟩
      · exact h.orders k o hold
      · exact h.logs _ _ hlog o hmem
    · intro height ch hlog'
      apply h.logs height ch
      rw [← undoLog_undoChange]
      exact undoLog_delHeight hlog'
  | reset => exact .empty _
  | taken _ hpos hunspent hmult _ =>
    refine ⟨?_, ?_, ?_⟩
    · rw [Store.accept_positions]
      exact h.positions
    · intro k o ho
      rw [Store.accept_orders, Table.lookup_insert_eq] at ho
      split_ifs at ho with hk
      · obtain rfl := Option.some.inj ho
        have hterms := h.positions.terms _ _ hpos
        rw [Position.terms, hmult] at hterms
        rwa [hk]
      · exact h.orders k o ho
    · simp only [Store.accept_undoLog]
      exact h.logs
  | withdrawn _ _ =>
    refine ⟨h.positions, ?_, h.logs⟩
    intro k o ho
    simp only [Store.withdraw, Store.putTombstone, Store.delOrder, Table.lookup_erase_eq] at ho
    split_ifs at ho
    exact h.orders k o ho

theorem termsOk_indexAfter {ec : Btcec} {reorgWindow : ℤ} {events : List Event} (hknown : ConsistentTxids known)
    (hevents : ∀ e ∈ events, KnownEvent known e) : (indexAfter crypto ec reorgWindow events).store.TermsOk crypto known := by
  refine (List.foldlRecOn (motive := fun s : Index => s.store.RelayOk ∧ s.store.TermsOk crypto known) events _
    ⟨relayOk_indexAfter crypto ec reorgWindow [], .empty ∅⟩ ?_).2
  rintro s ⟨hrelay, hterms⟩ e he
  exact ⟨hrelay.step (storeStep e), hterms.step hrelay hknown (hevents e he) (storeStep e)⟩

end

/-- No stored order contradicts the position table, and every order served is for an unspent position. -/
theorem orders_agree_with_positions (crypto : Crypto) (ec : Btcec) (reorgWindow : ℤ) (known : RPCTx → Prop)
    (hknown : ConsistentTxids known) (events : List Event) (hevents : ∀ e ∈ events, KnownEvent known e) :
    let s := indexAfter crypto ec reorgWindow events
    (∀ k o, s.store.orders.lookup k = some o → o.key = k ∧
      ∀ pos, s.store.positions.lookup k = some pos → pos.spent = false ∧ o.terms = pos.terms) ∧
    ∀ multiplier, ∀ o ∈ s.listOrders multiplier,
      ∃ pos, s.store.positions.lookup o.key = some pos ∧ pos.spent = false ∧ o.terms = pos.terms := by
  have hrelay := relayOk_indexAfter crypto ec reorgWindow events
  have hterms : (indexAfter crypto ec reorgWindow events).store.TermsOk crypto known :=
    termsOk_indexAfter hknown hevents
  generalize indexAfter crypto ec reorgWindow events = s at hrelay hterms
  have hstored : ∀ k o, s.store.orders.lookup k = some o → o.key = k ∧
      ∀ pos, s.store.positions.lookup k = some pos → pos.spent = false ∧ o.terms = pos.terms := by
    intro k o ho
    refine ⟨hrelay.book.orders_keyed k o ho, ?_⟩
    intro pos hpos
    exact ⟨hrelay.book.unspent k o pos ho hpos,
      (hterms.orders k o ho).unique hknown (hterms.positions.terms k pos hpos)⟩
  refine ⟨hstored, ?_⟩
  intro multiplier o ho
  obtain ⟨⟨k, stored⟩, hentry, hopen⟩ := (Multiset.mem_filterMap _ _).mp ho
  obtain ⟨hkey, hagree⟩ := hstored k stored (Finmap.lookup_eq_some_iff.mpr hentry)
  unfold Store.openOrder? at hopen
  cases hpos : s.store.positions.lookup k with
  | none => simp [hpos] at hopen
  | some pos =>
    simp only [hpos] at hopen
    split_ifs at hopen
    obtain rfl := Option.some.inj hopen
    obtain ⟨hunspent, hsame⟩ := hagree pos hpos
    have hokey : ({ stored with backingValue := pos.value, origin := pos.origin } : Order).key = k := hkey
    refine ⟨pos, by rw [hokey, hpos], hunspent, ?_⟩
    have hmult : stored.multiplier = pos.multiplier := congrArg Terms.multiplier hsame
    have hpub : stored.pubKey = pos.pubKey := congrArg Terms.pubKey hsame
    simp only [Order.terms, Position.terms, hmult, hpub]

theorem orders_agree_with_positions_offer :
    let s := indexAfter (Crypto.recorded []) (Btcec.recorded []) 15000 sampleOffer
    (s.store.orders.lookup sampleOrder.key).isSome ∧ ∀ multiplier, ∀ o ∈ s.listOrders multiplier,
      ∃ pos, s.store.positions.lookup o.key = some pos ∧ pos.spent = false ∧ o.terms = pos.terms := by
  have hstored : ((indexAfter (Crypto.recorded []) (Btcec.recorded []) 15000 sampleOffer).store.orders.lookup
      sampleOrder.key).isSome := by decide +kernel
  have hknown : ConsistentTxids fun tx => tx = sampleMint := by
    intro tx tx' htx htx' _
    rw [htx, htx']
  have hevents : ∀ e ∈ sampleOffer, KnownEvent (fun tx => tx = sampleMint) e := by
    simp only [sampleOffer, List.forall_mem_cons]
    exact ⟨fun tx htx => List.mem_singleton.mp htx, trivial, by simp⟩
  exact ⟨hstored, (orders_agree_with_positions (Crypto.recorded []) (Btcec.recorded []) 15000 _ hknown sampleOffer
    hevents).2⟩

end Whippet.Indexer
