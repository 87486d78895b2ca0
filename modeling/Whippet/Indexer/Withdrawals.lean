import Whippet.Indexer.OrderTerms

/-! Who can take a stored order off the book, and whether a withdrawn order stays away. -/
namespace Whippet.Indexer
open Lib Primitives Script

section
variable {crypto : Crypto} {ec : Btcec} {reorgWindow : ℤ} {chain : List RPCBlock} {s : Index} {k : Outpoint}

theorem Logged.spent_stays {ch : HeightChange} {c c' : Core} (h : Logged ch c c') {pos : Position}
    (hpos : c.positions.lookup k = some pos) (hspent : pos.spent = true) : c'.positions.lookup k = some pos := by
  have hbefore := h.positions k
  rw [hpos] at hbefore
  split_ifs at hbefore
  · -- a position that the block spends is unspent before it
    obtain ⟨p, -, rfl⟩ := Option.map_eq_some_iff.mp hbefore.symm
    cases hspent
  · exact hbefore.symm

theorem ChainInv.replay_logged (h : ChainInv crypto ec reorgWindow chain s) {j : ℕ} (hj : j < chain.length) :
    ∃ ch, Logged ch (replay crypto ec reorgWindow (chain.take j)).store.core
      (replay crypto ec reorgWindow (chain.take (j + 1))).store.core := by
  have htake : chain.take (j + 1) = chain.take j ++ [chain.get ⟨j, hj⟩] := by
    rw [List.take_add_one, List.getElem?_eq_getElem hj]
    rfl
  have hreplayable := h.replayable
  rw [← List.take_append_drop (j + 1) chain, List.map_append, admissible_append, htake, replayable_append] at hreplayable
  obtain ⟨-, hfresh, hok⟩ := hreplayable.1.2
  obtain ⟨t, heights, prunedBelow, -, hrun, -, heq⟩ := applyBlock_ok hok
  have hblock := BlockInv.txs (h.rows j) rfl hfresh hrun
  rw [htake, replay_append, heq]
  exact ⟨t.change, hblock.logged⟩

theorem ChainInv.spent_stays (h : ChainInv crypto ec reorgWindow chain s) {i : ℕ} {pos : Position}
    (hpos : (replay crypto ec reorgWindow (chain.take i)).store.core.positions.lookup k = some pos)
    (hspent : pos.spent = true) {j : ℕ} (hij : i ≤ j) (hj : j ≤ chain.length) :
    (replay crypto ec reorgWindow (chain.take j)).store.core.positions.lookup k = some pos := by
  induction j, hij using Nat.le_induction with
  | base => exact hpos
  | succ j _ ih =>
    obtain ⟨ch, hlogged⟩ := h.replay_logged (Nat.lt_of_succ_le hj)
    exact hlogged.spent_stays (ih (Nat.le_of_succ_le hj)) hspent

theorem ChainInv.logged_spent (h : ChainInv crypto ec reorgWindow chain s) {height : ℤ} {ch : HeightChange}
    (hlog : s.store.undoLog? height = some ch) (hk : k ∈ ch.spentKeys) :
    ∃ pos, s.store.positions.lookup k = some pos ∧ pos.spent = true := by
  obtain ⟨row, hrow, hundo⟩ := Option.bind_eq_some_iff.mp hlog
  obtain ⟨block, hmem, rfl⟩ := h.recorded height (by simp [hrow])
  obtain ⟨i, hi⟩ := List.getElem?_of_mem hmem
  obtain ⟨pos, hpos, hspent⟩ := ((h.logs i block hi row hrow).2 ch hundo).spent k hk
  have hend := h.spent_stays hpos hspent (List.getElem?_eq_some_iff.mp hi).1 (le_refl _)
  rw [List.take_length, ← h.core] at hend
  exact ⟨pos, hend, hspent⟩

/-- The order with signature push `text` is withdrawn at `k`, and the relay has no way of its own to bring the
fragment back. -/
structure Store.Withdrawn (k : Outpoint) (text : Text) (t : Store) : Prop where
  orders : ∀ o, t.orders.lookup k = some o → hexDecode? o.scriptSig ≠ hexDecode? text
  tombstone : t.tombstone? k = some text
  logs : ∀ h ch, t.undoLog? h = some ch → ∀ o ∈ ch.ordersPruned, o.key = k → hexDecode? o.scriptSig ≠ hexDecode? text

/-- What keeps a withdrawal: peers spell the fragment as it was withdrawn, and nobody publishes or cancels at
the outpoint. -/
def KeepsWithdrawal (k : Outpoint) (text : Text) : Event → Prop
  | .publishOrder o _ => o.key ≠ k
  | .adoptMirroredOrder o _ => o.key = k → hexDecode? o.scriptSig = hexDecode? text → o.scriptSig = text
  | .cancelOrder txid vout _ _ => positionKey txid vout ≠ k
  | _ => True

theorem applyTxs_tombstones {height : ℤ} {t t' : BlockState} {txs : List RPCTx}
    (hrun : applyTxs crypto height t txs = .ok t') : t'.store.tombstones = t.store.tombstones :=
  applyTxs_frame Store.tombstones (fun _ _ => rfl) (fun _ _ => rfl) (fun _ _ => rfl) (fun _ _ => rfl) (fun _ _ => rfl)
    (fun _ _ => rfl) hrun

theorem Store.Withdrawn.accept {t : Store} {text : Text} {o : Order} {fromMirror : Bool} (h : t.Withdrawn k text)
    (hkey : fromMirror = false → o.key ≠ k) (hfragment : o.key = k → hexDecode? o.scriptSig ≠ hexDecode? text) :
    (t.accept o fromMirror).Withdrawn k text := by
  refine ⟨?_, ?_, ?_⟩
  · intro o' ho'
    rw [Store.accept_orders, Table.lookup_insert_eq] at ho'
    split_ifs at ho' with hk
    · obtain rfl := Option.some.inj ho'
      exact hfragment hk.symm
    · exact h.orders o' ho'
  · cases fromMirror with
    | true => exact h.tombstone
    | false =>
      have hlookup : (t.tombstones.erase o.key).lookup k = t.tombstones.lookup k :=
        Finmap.lookup_erase_ne (Ne.symm (hkey rfl))
      have htomb := h.tombstone
      rw [Store.tombstone?, ← hlookup] at htomb
      exact htomb
  · simp only [Store.accept_undoLog]
    exact h.logs

theorem Store.Withdrawn.step {text : Text} {e : Event} {t : Store} (h : s.store.Withdrawn k text)
    (hrelay : s.store.RelayOk) (hkeeps : KeepsWithdrawal k text e) (hstep : StoreStep crypto ec s e t) :
    t.Withdrawn k text := by
  cases hstep with
  | refused => exact h
  | applied hrun hrecorded =>
    have hbook := BookInv.txs hrelay.book hrun
    refine ⟨?_, ?_, ?_⟩
    · intro o ho
      exact h.orders o (hbook.pruned.kept k o ho)
    · rw [← h.tombstone, Store.tombstone?, Store.tombstone?, applyTxs_tombstones hrun]
    · intro height ch hlog o ho hkey
      rcases hrecorded.undoLog hlog with rfl | hold
      · have hstored := (hbook.pruned.logged o ho).1
        rw [hkey] at hstored
        exact h.orders o hstored
      · exact h.logs height ch hold o ho hkey
  | undone hlog =>
    refine ⟨?_, ?_, ?_⟩
    · intro o ho
      rcases Store.undoChange_orders_some ho with hold | ⟨hmem, hkey, -⟩
      · exact h.orders o hold
      · exact h.logs _ _ hlog o hmem hkey
    · rw [← h.tombstone, Store.tombstone?, Store.tombstone?, Store.delHeight, Store.undoChange_tombstones]
    · intro height ch hlog'
      apply h.logs height ch
      rw [← undoLog_undoChange]
      exact undoLog_delHeight hlog'
  | reset =>
    refine ⟨?_, h.tombstone, ?_⟩ <;> simp [Store.truncate, Store.undoLog?]
  | @taken o fromMirror clock pos _ _ _ _ htomb =>
    apply h.accept
    · rintro rfl
      exact hkeeps
    · -- a mirrored order passes the tombstone only with another text, which then is another fragment
      intro hkey heq
      cases fromMirror with
      | false => exact hkeeps hkey
      | true =>
        rw [Order.key_complete] at hkey
        apply htomb rfl
        rw [hkey, h.tombstone, hkeeps hkey heq]
  | @withdrawn txid sig vout clock o _ _ =>
    have hne : k ≠ positionKey txid vout := Ne.symm hkeeps
    refine ⟨?_, ?_, h.logs⟩
    · intro o' ho'
      rw [Store.withdraw, Store.putTombstone, Store.delOrder, Table.lookup_erase_eq, if_neg hne] at ho'
      exact h.orders o' ho'
    · rw [← h.tombstone, Store.tombstone?, Store.withdraw, Store.putTombstone, Table.lookup_insert_eq, if_neg hne]
      rfl

theorem ChainInv.withdrawn (h : ChainInv crypto ec reorgWindow chain s) (hrelay : s.store.RelayOk) {o : Order}
    (ho : s.store.orders.lookup k = some o) (time : ℤ) : (s.store.withdraw k o.scriptSig time).Withdrawn k o.scriptSig := by
  refine ⟨?_, ?_, ?_⟩
  · intro o' ho'
    simp [Store.withdraw, Store.putTombstone, Store.delOrder] at ho'
  · simp [Store.tombstone?, Store.withdraw, Store.putTombstone]
  · intro height ch hlog o' ho' hkey
    obtain ⟨pos, hpos, hspent⟩ := h.logged_spent hlog (hrelay.logs height ch hlog o' ho')
    rw [hkey] at hpos
    have hunspent := hrelay.book.unspent k o pos ho hpos
    rw [hspent] at hunspent
    cases hunspent

/-- A withdrawn order stays withdrawn along every run that keeps the withdrawal. -/
theorem withdrawn_order_stays (crypto : Crypto) (ec : Btcec) (reorgWindow : ℤ) (before : List Event)
    (hbefore : Admissible (Index.step crypto ec) (ChainEvent crypto) (newIndex reorgWindow) before)
    (txid : Text) (vout : UInt32) (sig : Text) (clock : Clock) (o : Order) (s : Index)
    (ho : (indexAfter crypto ec reorgWindow before).store.orders.lookup (positionKey txid vout) = some o)
    (hcancel : (indexAfter crypto ec reorgWindow before).cancelOrder crypto ec txid vout sig clock = .ok s)
    (after : List Event) (hafter : ∀ e ∈ after, KeepsWithdrawal (positionKey txid vout) o.scriptSig e) :
    ∀ o', (run (Index.step crypto ec) s after).store.orders.lookup (positionKey txid vout) = some o' →
      hexDecode? o'.scriptSig ≠ hexDecode? o.scriptSig := by
  have hrelay := relayOk_indexAfter crypto ec reorgWindow before
  have hinv := chainInv_run hbefore
  generalize indexAfter crypto ec reorgWindow before = s₀ at hrelay hinv ho hcancel
  obtain ⟨o₁, -, ho₁, hsigned, rfl⟩ := cancelOrder_ok hcancel
  obtain rfl := Option.some.inj (ho.symm.trans ho₁)
  have hwithdrawn := hinv.withdrawn hrelay ho clock.unix
  have hstep : StoreStep crypto ec s₀ (.cancelOrder txid vout sig clock)
      (s₀.store.withdraw (positionKey txid vout) o.scriptSig clock.unix) := .withdrawn ho hsigned
  have hrelay' := hrelay.step hstep
  refine (List.foldlRecOn (motive := fun s : Index =>
    s.store.RelayOk ∧ s.store.Withdrawn (positionKey txid vout) o.scriptSig) after _ ⟨hrelay', hwithdrawn⟩ ?_).2.orders
  rintro s ⟨hrelay, hwithdrawn⟩ e he
  exact ⟨hrelay.step (storeStep e), hwithdrawn.step hrelay (hafter e he) (storeStep e)⟩

end

def sampleCancelSig : Bytes :=
  [0x30, 0x45] ++ beBytes 35 0x022100d2ea2d43162f3428d22014d9aa116c99b6174501647bc9abd448e1dae947cb7f ++
    beBytes 34 0x02200e1bc4bac24751e4e92b98ab5398b03eea55cc1e5fb2bf0e1a774af5b1a730d1

def sampleEc : Btcec := Btcec.recorded
  [(sampleKey, beBytes 32 0xd7a6d02ecef9e0d2a4b3b3266e95ad7c3a021c1b52c92ff5fe27fc90fb2b8447, sampleCancelSig)]

theorem withdrawn_order_stays_mirrored : ∃ o s,
    (indexAfter (Crypto.recorded []) sampleEc 15000 sampleOffer).store.orders.lookup (positionKey (sampleTxid 'a') 0) =
        some o ∧
      (indexAfter (Crypto.recorded []) sampleEc 15000 sampleOffer).cancelOrder (Crypto.recorded []) sampleEc
        (sampleTxid 'a') 0 (hexEncode sampleCancelSig) sampleClock = .ok s ∧
      ∀ o', (run (Index.step (Crypto.recorded []) sampleEc) s [.adoptMirroredOrder sampleOrder sampleClock]).store.orders.lookup
          (positionKey (sampleTxid 'a') 0) = some o' → hexDecode? o'.scriptSig ≠ hexDecode? o.scriptSig := by
  have hadmissible : Admissible (Index.step (Crypto.recorded []) sampleEc) (ChainEvent (Crypto.recorded []))
      (newIndex 15000) sampleOffer := by decide +kernel
  have hstored : ((indexAfter (Crypto.recorded []) sampleEc 15000 sampleOffer).store.orders.lookup
      (positionKey (sampleTxid 'a') 0)).map Order.scriptSig = some sampleOrder.scriptSig := by decide +kernel
  have hok : ((indexAfter (Crypto.recorded []) sampleEc 15000 sampleOffer).cancelOrder (Crypto.recorded []) sampleEc
      (sampleTxid 'a') 0 (hexEncode sampleCancelSig) sampleClock).isOk = true := by decide +kernel
  obtain ⟨o, ho, hscript⟩ := Option.map_eq_some_iff.mp hstored
  cases hcancel : (indexAfter (Crypto.recorded []) sampleEc 15000 sampleOffer).cancelOrder (Crypto.recorded []) sampleEc
      (sampleTxid 'a') 0 (hexEncode sampleCancelSig) sampleClock with
  | error e => simp [hcancel, Except.isOk, Except.toBool] at hok
  | ok s =>
    refine ⟨o, s, ho, rfl, ?_⟩
    apply withdrawn_order_stays (Crypto.recorded []) sampleEc 15000 sampleOffer hadmissible (sampleTxid 'a') 0
      (hexEncode sampleCancelSig) sampleClock o s ho hcancel
    intro e he
    rw [List.mem_singleton.mp he]
    exact fun _ _ => hscript.symm

def sampleShouted : Order := { sampleOrder with scriptSig := (hexEncode sampleScriptSig).map Char.toUpper }

/-- The offer is withdrawn with a good signature. A peer's copy with the same signature push in capital digits
passes the tombstone, and the withdrawn fragment is on the book again. -/
theorem withdrawn_order_returns :
    Admissible (Index.step (Crypto.recorded []) sampleEc) (ChainEvent (Crypto.recorded [])) (newIndex 15000) sampleOffer ∧
      ((indexAfter (Crypto.recorded []) sampleEc 15000 sampleOffer).store.orders.lookup sampleOrder.key).map
        (fun o => hexDecode? o.scriptSig) = some (some sampleScriptSig) ∧
      ((indexAfter (Crypto.recorded []) sampleEc 15000 sampleOffer).cancelOrder (Crypto.recorded []) sampleEc
        (sampleTxid 'a') 0 (hexEncode sampleCancelSig) sampleClock).isOk = true ∧
      ((indexAfter (Crypto.recorded []) sampleEc 15000 (sampleOffer ++
        [.cancelOrder (sampleTxid 'a') 0 (hexEncode sampleCancelSig) sampleClock,
          .adoptMirroredOrder sampleShouted sampleClock])).store.orders.lookup sampleOrder.key).map
        (fun o => hexDecode? o.scriptSig) = some (some sampleScriptSig) := by
  decide +kernel

end Whippet.Indexer
