import Whippet.Indexer.OrderBook

/-! The order book along a run: an order never contradicts the position table, and what a rollback restores. -/
namespace Whippet.Indexer
open Lib Primitives Script

def Event.submit (fromMirror : Bool) (o : Order) (clock : Clock) : Event :=
  if fromMirror then .adoptMirroredOrder o clock else .publishOrder o clock

/-- Everything an event can do to the store. -/
inductive StoreStep (crypto : Crypto) (ec : Btcec) (s : Index) : Event → Store → Prop
  | refused (e : Event) : StoreStep crypto ec s e s.store
  | applied {block : RPCBlock} {t : BlockState} {heights : Table ℤ HeightRow}
      (run : applyTxs crypto block.height ⟨s.store, {}⟩ block.tx = .ok t)
      (recorded : RecordedBlock block t.change s.store.heights heights) :
      StoreStep crypto ec s (.applyBlock block) { t.store with heights := heights }
  | undone {height : ℤ} {ch : HeightChange} (log : s.store.undoLog? height = some ch) :
      StoreStep crypto ec s (.undoBlock height) ((s.store.undoChange ch).delHeight height)
  | reset : StoreStep crypto ec s .reset s.store.truncate
  | taken {o : Order} {fromMirror : Bool} {clock : Clock} {pos : Position}
      (accepted : (s.publishOrder o fromMirror clock).isOk = true)
      (known : s.store.positions.lookup o.key = some pos) (unspent : pos.spent = false)
      (multiplier : pos.multiplier = o.multiplier)
      (tombstone : fromMirror = true → s.store.tombstone? o.key ≠ some o.scriptSig) :
      StoreStep crypto ec s (.submit fromMirror o clock)
        (s.store.accept (o.complete pos clock.unix (s.nextCancelNonce clock)) fromMirror)
  | withdrawn {txid sig : Text} {vout : UInt32} {clock : Clock} {o : Order}
      (stored : s.store.orders.lookup (positionKey txid vout) = some o)
      (signed : verifyCancelSignature crypto ec o.pubKey txid vout o.scriptSig o.cancelNonce sig = .ok ()) :
      StoreStep crypto ec s (.cancelOrder txid vout sig clock)
        (s.store.withdraw (positionKey txid vout) o.scriptSig clock.unix)

section
variable {crypto : Crypto} {ec : Btcec} {s : Index} {block : RPCBlock}

theorem applyBlock_store_of_error (h : (s.applyBlock crypto block).storeErr ≠ none) :
    (s.applyBlock crypto block).store = s.store := by
  unfold Index.applyBlock Index.write at h ⊢
  cases herr : s.storeErr with
  | some e => rfl
  | none =>
    simp only [herr] at h ⊢
    cases hrun : Store.applyBlock crypto s.reorgWindow block s.store ⟨s.tipHeight, s.tipHash, s.prunedBelow⟩ with
    | error e => rfl
    | ok r => simp [hrun] at h

theorem storeStep_applyBlock : StoreStep crypto ec s (.applyBlock block) (s.applyBlock crypto block).store := by
  by_cases hok : (s.applyBlock crypto block).storeErr = none
  · obtain ⟨t, heights, prunedBelow, -, hrun, hrecorded, heq⟩ := applyBlock_ok hok
    rw [heq]
    exact .applied hrun hrecorded
  · rw [applyBlock_store_of_error hok]
    exact .refused _

theorem storeStep_undoBlock (height : ℤ) : StoreStep crypto ec s (.undoBlock height) (s.undoBlock height).store := by
  unfold Index.undoBlock Index.write
  cases herr : s.storeErr with
  | some e => exact .refused _
  | none =>
    cases hlog : s.store.undoLog? height with
    | none =>
      simp only [Store.undoBlock, hlog]
      exact .refused _
    | some ch =>
      simp only [Store.undoBlock, hlog]
      split_ifs <;> exact .undone hlog

theorem storeStep_publishOrder (o : Order) (fromMirror : Bool) (clock : Clock) :
    StoreStep crypto ec s (.submit fromMirror o clock) (match s.publishOrder o fromMirror clock with
      | .ok (idx, _) => idx
      | .error _ => s).store := by
  cases h : s.publishOrder o fromMirror clock with
  | error e => exact .refused _
  | ok r =>
    obtain ⟨pos, -, hpos, hunspent, hmult, htomb, horder, hstore⟩ := publishOrder_ok h
    dsimp only
    rw [hstore, horder]
    exact .taken (by rw [h]; rfl) hpos hunspent hmult htomb

theorem storeStep_cancelOrder (txid : Text) (vout : UInt32) (sig : Text) (clock : Clock) :
    StoreStep crypto ec s (.cancelOrder txid vout sig clock) (match s.cancelOrder crypto ec txid vout sig clock with
      | .ok idx => idx
      | .error _ => s).store := by
  cases h : s.cancelOrder crypto ec txid vout sig clock with
  | error e => exact .refused _
  | ok s' =>
    obtain ⟨o, -, hstored, hsigned, hstore⟩ := cancelOrder_ok h
    dsimp only
    rw [hstore]
    exact .withdrawn hstored hsigned

theorem storeStep (e : Event) : StoreStep crypto ec s e (Index.step crypto ec s e).store := by
  cases e with
  | applyBlock block => exact storeStep_applyBlock
  | undoBlock height => exact storeStep_undoBlock height
  | reset =>
    unfold Index.step Index.reset
    cases s.storeErr with
    | some e => exact .refused _
    | none => exact .reset
  | publishOrder o clock => exact storeStep_publishOrder o false clock
  | adoptMirroredOrder o clock => exact storeStep_publishOrder o true clock
  | cancelOrder txid vout sig clock => exact storeStep_cancelOrder txid vout sig clock

@[simp] theorem Store.accept_orders (t : Store) (o : Order) (fromMirror : Bool) :
    (t.accept o fromMirror).orders = t.orders.insert o.key o := by
  cases fromMirror <;> rfl

@[simp] theorem Store.accept_positions (t : Store) (o : Order) (fromMirror : Bool) :
    (t.accept o fromMirror).positions = t.positions := by
  cases fromMirror <;> rfl

@[simp] theorem Store.accept_undoLog (t : Store) (o : Order) (fromMirror : Bool) (h : ℤ) :
    (t.accept o fromMirror).undoLog? h = t.undoLog? h := by
  cases fromMirror <;> rfl

@[simp] theorem Order.key_complete (o : Order) (pos : Position) (createdAt nonce : ℤ) :
    (o.complete pos createdAt nonce).key = o.key := rfl

variable {t : Store} {ch : HeightChange}

theorem RecordedBlock.undoLog {t' : Store}
    (h : RecordedBlock block ch t.heights t'.heights) {height : ℤ} {ch' : HeightChange}
    (hlog : t'.undoLog? height = some ch') : ch' = ch ∨ t.undoLog? height = some ch' := by
  obtain ⟨row, hrow, hundo⟩ := Option.bind_eq_some_iff.mp hlog
  by_cases hheight : height = block.height
  · rw [hheight, h.own] at hrow
    obtain rfl := Option.some.inj hrow
    exact Or.inl (Option.some.inj hundo).symm
  · exact Or.inr (Option.bind_eq_some_iff.mpr ⟨row, h.other height row hheight hrow, hundo⟩)

theorem undoLog_delHeight {height h : ℤ} (hlog : (t.delHeight height).undoLog? h = some ch) :
    t.undoLog? h = some ch := by
  obtain ⟨row, hrow, hundo⟩ := Option.bind_eq_some_iff.mp hlog
  rw [Store.delHeight, Table.lookup_erase_eq] at hrow
  split_ifs at hrow
  exact Option.bind_eq_some_iff.mpr ⟨row, hrow, hundo⟩

theorem undoLog_undoChange (t : Store) (ch : HeightChange) (h : ℤ) : (t.undoChange ch).undoLog? h = t.undoLog? h := by
  rw [Store.undoLog?, undoChange_heights, Store.undoLog?]

/-- The invariant of the relay: the book is in order, and a block only logs orders of positions it spent. -/
structure Store.RelayOk (t : Store) : Prop where
  book : t.BookOk
  logs : ∀ h ch, t.undoLog? h = some ch → ∀ o ∈ ch.ordersPruned, o.key ∈ ch.spentKeys

theorem Store.BookOk.undoChange (h : t.BookOk) (hlog : ∀ o ∈ ch.ordersPruned, o.key ∈ ch.spentKeys) :
    (t.undoChange ch).BookOk := by
  refine ⟨?_, ?_, ?_⟩
  · intro k pos hpos
    rw [Store.undoChange_positions ch h.positions_keyed] at hpos
    split_ifs at hpos
    · obtain ⟨p, hp, rfl⟩ := Option.map_eq_some_iff.mp hpos
      exact h.positions_keyed k p hp
    · exact h.positions_keyed k pos hpos
  · intro k o ho
    rcases Store.undoChange_orders_some ho with hold | ⟨-, hkey, -⟩
    · exact h.orders_keyed k o hold
    · exact hkey
  · intro k o pos ho hpos
    rw [Store.undoChange_positions ch h.positions_keyed] at hpos
    split_ifs at hpos with hcreated hspent
    · obtain ⟨p, -, rfl⟩ := Option.map_eq_some_iff.mp hpos
      rfl
    · rcases Store.undoChange_orders_some ho with hold | ⟨hmem, rfl, -⟩
      · exact h.unspent k o pos hold hpos
      · exact absurd (hlog o hmem) hspent

theorem Store.RelayOk.step {e : Event} (h : s.store.RelayOk) (hstep : StoreStep crypto ec s e t) :
    t.RelayOk := by
  cases hstep with
  | refused => exact h
  | applied hrun hrecorded =>
    have hbook := BookInv.txs h.book hrun
    refine ⟨⟨hbook.book.positions_keyed, hbook.book.orders_keyed, hbook.book.unspent⟩, ?_⟩
    intro height ch hlog o ho
    rcases hrecorded.undoLog hlog with rfl | hold
    · exact (hbook.pruned.logged o ho).2.2
    · exact h.logs height ch hold o ho
  | undone hlog =>
    have hbook := h.book.undoChange (h.logs _ _ hlog)
    refine ⟨⟨hbook.positions_keyed, hbook.orders_keyed, hbook.unspent⟩, ?_⟩
    intro height ch hlog'
    apply h.logs height ch
    rw [← undoLog_undoChange]
    exact undoLog_delHeight hlog'
  | reset =>
    refine ⟨⟨Table.Keyed.empty, Table.Keyed.empty, ?_⟩, ?_⟩ <;> simp [Store.truncate, Store.undoLog?]
  | taken _ hpos hunspent _ _ =>
    refine ⟨⟨?_, ?_, ?_⟩, ?_⟩
    · rw [Store.accept_positions]
      exact h.book.positions_keyed
    · rw [Store.accept_orders]
      exact h.book.orders_keyed.insert rfl
    · intro k o p ho hp
      rw [Store.accept_orders, Table.lookup_insert_eq] at ho
      rw [Store.accept_positions] at hp
      split_ifs at ho with hk
      · rw [hk, Order.key_complete, hpos] at hp
        obtain rfl := Option.some.inj hp
        exact hunspent
      · exact h.book.unspent k o p ho hp
    · simp only [Store.accept_undoLog]
      exact h.logs
  | withdrawn _ _ =>
    refine ⟨⟨h.book.positions_keyed, h.book.orders_keyed.erase _, ?_⟩, h.logs⟩
    intro k o p ho hp
    simp only [Store.withdraw, Store.putTombstone, Store.delOrder, Table.lookup_erase_eq] at ho
    split_ifs at ho
    exact h.book.unspent k o p ho hp

theorem relayOk_indexAfter (crypto : Crypto) (ec : Btcec) (reorgWindow : ℤ) (events : List Event) :
    (indexAfter crypto ec reorgWindow events).store.RelayOk := by
  refine List.foldlRecOn (motive := fun s : Index => s.store.RelayOk) events _ ?_ ?_
  · refine ⟨⟨Table.Keyed.empty, Table.Keyed.empty, ?_⟩, ?_⟩ <;> simp [newIndex, Store.undoLog?]
  · intro s hs e _
    exact hs.step (storeStep e)

theorem undoBlock_applyBlock (hok : (s.applyBlock crypto block).storeErr = none) : ∃ t,
    applyTxs crypto block.height ⟨s.store, {}⟩ block.tx = .ok t ∧
      ((s.applyBlock crypto block).undoBlock block.height).store.orders = (t.store.undoChange t.change).orders := by
  obtain ⟨t, heights, prunedBelow, herr, hrun, hrecorded, heq⟩ := applyBlock_ok hok
  refine ⟨t, hrun, ?_⟩
  have hlog : (s.applyBlock crypto block).store.undoLog? (s.applyBlock crypto block).tipHeight = some t.change := by
    rw [heq]
    exact Option.bind_eq_some_iff.mpr ⟨_, hrecorded.own, rfl⟩
  have htip : (s.applyBlock crypto block).tipHeight = block.height := by rw [heq]
  have hundo := undoBlock_tip hok hlog
  rw [htip] at hundo
  rw [hundo]
  apply Finmap.ext_lookup
  intro k
  rw [Store.undoChange_orders, Store.undoChange_orders, heq]

/-- Applying a block and rolling it back restores the order book exactly when no stored order's position is
both created and spent by the block. -/
theorem undo_restores_orders_iff (crypto : Crypto) (ec : Btcec) (reorgWindow : ℤ) (events : List Event)
    (block : RPCBlock) (hok : ((indexAfter crypto ec reorgWindow events).applyBlock crypto block).storeErr = none) :
    (((indexAfter crypto ec reorgWindow events).applyBlock crypto block).undoBlock block.height).store.orders =
        (indexAfter crypto ec reorgWindow events).store.orders ↔
      ∀ k ∈ (indexAfter crypto ec reorgWindow events).store.orders,
        SpentIn (indexAfter crypto ec reorgWindow events).store.positions block.tx k →
          ¬ ∃ tx ∈ block.tx, k ∈ tx.creates := by
  have hrelay := relayOk_indexAfter crypto ec reorgWindow events
  generalize indexAfter crypto ec reorgWindow events = s at hok hrelay ⊢
  obtain ⟨t, hrun, hundo⟩ := undoBlock_applyBlock hok
  have hbook := BookInv.txs hrelay.book hrun
  rw [hundo]
  constructor
  · intro heq k hk hspent hcreates
    have hnone : (t.store.undoChange t.change).orders.lookup k = none := by
      rw [Store.undoChange_orders, if_pos ((hbook.created k).mpr hcreates), hbook.spent k hspent]
    rw [heq] at hnone
    exact Finmap.lookup_eq_none.mp hnone hk
  · intro hcond
    apply Finmap.ext_lookup
    intro k
    rw [Store.undoChange_orders]
    cases hk : s.store.orders.lookup k with
    | none =>
      have hgone : t.store.orders.lookup k = none := by
        by_contra hne
        obtain ⟨o, ho⟩ := Option.ne_none_iff_exists'.mp hne
        simp [hbook.pruned.kept k o ho] at hk
      have hfind : (t.change.ordersPruned.reverse.find? fun o => o.key = k) = none := by
        apply List.find?_eq_none.mpr
        intro o ho hkey
        have := (hbook.pruned.logged o (List.mem_reverse.mp ho)).1
        rw [show o.key = k by simpa using hkey, hk] at this
        contradiction
      rw [hgone, hfind]
      simp
    | some o =>
      split_ifs with hcreated
      · have hunspent : ¬ SpentIn s.store.positions block.tx k := by
          intro hspent
          exact hcond k (Finmap.mem_iff.mpr ⟨o, hk⟩) hspent ((hbook.created k).mp hcreated)
        rw [hbook.unspent k hunspent, hk]
      · cases hfind : t.change.ordersPruned.reverse.find? fun o => o.key = k with
        | some o' =>
          have hkey : o'.key = k := by simpa using List.find?_some hfind
          have := (hbook.pruned.logged o' (List.mem_reverse.mp (List.mem_of_find?_eq_some hfind))).1
          rw [hkey, hk] at this
          rw [Option.some_or, this]
        | none =>
          rw [Option.none_or]
          rcases hbook.pruned.all k o hk with hkept | hlogged
          · exact hkept
          · have := List.find?_eq_none.mp hfind o (List.mem_reverse.mpr hlogged)
            simp [hrelay.book.orders_keyed k o hk] at this

theorem not_creates_of_new {txs : List RPCTx} (h : ∀ tx ∈ txs, ∀ k ∈ tx.creates, k ∉ t.orders) :
    ∀ k ∈ t.orders, SpentIn t.positions txs k → ¬ ∃ tx ∈ txs, k ∈ tx.creates := by
  rintro k hk - ⟨tx, htx, hcreates⟩
  exact h tx htx k hcreates hk

end

def sampleScriptSig : Bytes :=
  [0x48, 0x30, 0x45] ++ beBytes 35 0x022100d3e4bb705d20bc90e158756379bc0e30e0708c1fd178992a449d800e93d751db ++
    beBytes 34 0x022057c1e18169cb67db82b285c4d14647c2f9902aa77f13eba8ee42964254950c1d ++ [0x83]

def sampleOrder : Order where
  txid := sampleTxid 'a'
  vout := 0
  multiplier := 40
  pubKey := []
  scriptSig := hexEncode sampleScriptSig
  paymentScript := hexEncode ([0x76, 0xa9, 0x14] ++ List.replicate 20 0 ++ [0x88, 0xac])
  paymentValue := 500
  createdAt := 0
  backingValue := 0
  origin := []
  cancelNonce := 0
  status := []
  pendingTxid := []

def sampleClock : Clock := ⟨1700000000, 1700000000000000000⟩

def sampleOffer : List Event :=
  [.applyBlock (sampleBlock '0' 0 [] [sampleMint]), .publishOrder sampleOrder sampleClock]

def sampleFill : RPCBlock := sampleBlock '1' 1 (sampleTxid '0') [sampleMove]

theorem undo_restores_orders_fill :
    ((indexAfter (Crypto.recorded []) (Btcec.recorded []) 15000 sampleOffer).applyBlock (Crypto.recorded [])
        sampleFill).storeErr = none ∧
      (((indexAfter (Crypto.recorded []) (Btcec.recorded []) 15000 sampleOffer).applyBlock (Crypto.recorded [])
        sampleFill).undoBlock sampleFill.height).store.orders =
        (indexAfter (Crypto.recorded []) (Btcec.recorded []) 15000 sampleOffer).store.orders := by
  have hok : ((indexAfter (Crypto.recorded []) (Btcec.recorded []) 15000 sampleOffer).applyBlock (Crypto.recorded [])
      sampleFill).storeErr = none := by decide +kernel
  have hnew : ∀ tx ∈ sampleFill.tx, ∀ k ∈ tx.creates,
      k ∉ (indexAfter (Crypto.recorded []) (Btcec.recorded []) 15000 sampleOffer).store.orders := by decide +kernel
  exact ⟨hok, (undo_restores_orders_iff (Crypto.recorded []) (Btcec.recorded []) 15000 sampleOffer sampleFill hok).mpr
    (not_creates_of_new hnew)⟩

/-- The offer outlives the block that minted its position. A second block mints and moves the position at
once; applying that block and rolling it back loses the offer. -/
theorem undo_loses_order :
    let s := indexAfter (Crypto.recorded []) (Btcec.recorded []) 15000 (sampleOffer ++ [.undoBlock 0])
    let block := sampleBlock '3' 0 [] [sampleMint, sampleMove]
    SampleAdmissible (ChainEvent (Crypto.recorded [])) (sampleOffer ++ [.undoBlock 0]) ∧
      ChainEvent (Crypto.recorded []) s (.applyBlock block) ∧
      (s.store.orders.lookup sampleOrder.key).isSome ∧
      ((s.applyBlock (Crypto.recorded []) block).undoBlock 0).store.orders.lookup sampleOrder.key = none := by
  decide +kernel

end Whippet.Indexer
