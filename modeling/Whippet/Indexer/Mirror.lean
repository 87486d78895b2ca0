import Whippet.Indexer.Pages
import Whippet.Indexer.PendingSpends

/-! Mirroring: the open orders of a peer relay, adopted one by one. -/
namespace Whippet.Indexer
open Lib Primitives

namespace Index

/-- One order of the loop. An order that is refused is skipped. -/
def adoptOrder (clock : Order → Clock) (r : Index × ℕ) (o : Order) : Index × ℕ :=
  match r.1.publishOrder o true (clock o) with
  | .ok (idx, _) => (idx, r.2 + 1)
  | .error _ => r

/-- `mirrorOnce`, with what arrives of the peer's answer and the clock at each order's turn. The number is that of the
orders pulled. -/
def mirrorOnce (idx : Index) (reply : Except String (List Order)) (clock : Order → Clock) : Index × ℕ :=
  match reply with
  | .error _ => (idx, 0)
  | .ok orders => orders.foldl (adoptOrder clock) (idx, 0)

/-- What a peer answers to `GET /orders`, which is sent without parameters. -/
def mirrorReply (peer : Index) : Except String (List Order) := (peer.getOrders {}).map OrdersReply.orders

end Index

structure Fragment where
  key : Outpoint
  multiplier : ℤ
  scriptSig : Text
  paymentScript : Text
  paymentValue : ℤ
  deriving DecidableEq, Repr

def Order.fragment (o : Order) : Fragment := ⟨o.key, o.multiplier, o.scriptSig, o.paymentScript, o.paymentValue⟩

def Index.HasOrder (idx : Index) (o : Order) : Prop :=
  ∃ row, idx.store.orders.lookup o.key = some row ∧ row.fragment = o.fragment

/-- The index knows the position, unspent and with the order's multiplier, and the fragment was not withdrawn here. -/
structure Index.Adoptable (idx : Index) (o : Order) : Prop where
  position : ∃ pos, idx.store.positions.lookup o.key = some pos ∧ pos.spent = false ∧ pos.multiplier = o.multiplier
  standing : idx.store.tombstone? o.key ≠ some o.scriptSig

/-- The checks of an order that need no index. -/
structure Order.Checked (o : Order) : Prop where
  scriptSig : validateScriptSig o.scriptSig = .ok ()
  paymentValue : 0 < o.paymentValue
  paymentScript : hexDecode? o.paymentScript ≠ none

/-- The two agree on everything that an order is checked against. -/
structure Index.SameView (idx idx' : Index) : Prop where
  storeErr : idx'.storeErr = idx.storeErr
  positions : idx'.store.positions = idx.store.positions
  tombstones : idx'.store.tombstones = idx.store.tombstones

section
variable {idx idx' : Index} {o : Order} {fromMirror : Bool} {clock : Clock}

theorem publishOrder_checked {r : Index × Order} (h : idx.publishOrder o fromMirror clock = .ok r) : o.Checked := by
  unfold Index.publishOrder at h
  simp only [bind_eq_ok, failIf_eq_ok] at h
  obtain ⟨⟨⟩, hscriptSig, -, hvalue, -, hscript, -⟩ := h
  exact ⟨hscriptSig, not_le.mp hvalue, hscript⟩

theorem publishOrder_of_adoptable (fromMirror : Bool) (clock : Clock) (hstore : idx.storeErr = none)
    (hchecked : o.Checked) (h : idx.Adoptable o) : ∃ r, idx.publishOrder o fromMirror clock = .ok r := by
  obtain ⟨pos, hpos, hunspent, hmult⟩ := h.position
  unfold Index.publishOrder
  rw [hchecked.scriptSig, ok_bind, failIf_neg (not_le.mpr hchecked.paymentValue), ok_bind,
    failIf_neg hchecked.paymentScript, ok_bind]
  simp only [hstore, hpos, orFail, ok_bind]
  rw [failIf_neg (fun hwithdrawn => h.standing hwithdrawn.2), ok_bind, failIf_neg (by simp [hunspent]), ok_bind,
    failIf_neg (not_not.mpr hmult), ok_bind]
  exact ⟨_, rfl⟩

theorem Index.Adoptable.of_sameView (hview : idx.SameView idx') (h : idx.Adoptable o) : idx'.Adoptable o := by
  refine ⟨?_, ?_⟩
  · rw [hview.positions]
    exact h.position
  · rw [Store.tombstone?, hview.tombstones]
    exact h.standing

end

/-- What the loop over some orders does to the index. -/
structure Index.Adopts (orders : List Order) (idx idx' : Index) : Prop where
  view : idx.SameView idx'
  others : ∀ k, k ∉ orders.map Order.key → idx'.store.orders.lookup k = idx.store.orders.lookup k
  taken : idx.storeErr = none → ∀ o ∈ orders, o.Checked → idx.Adoptable o → idx'.HasOrder o

section
variable {idx : Index} {o : Order} {orders : List Order}

theorem Index.HasOrder.of_lookup {idx' : Index} (h : idx.HasOrder o)
    (hlookup : idx'.store.orders.lookup o.key = idx.store.orders.lookup o.key) : idx'.HasOrder o := by
  obtain ⟨row, hrow, hfragment⟩ := h
  exact ⟨row, hlookup.trans hrow, hfragment⟩

theorem adoptOrder_adopts (clock : Order → Clock) (r : Index × ℕ) (o : Order) :
    Index.Adopts [o] r.1 (Index.adoptOrder clock r o).1 := by
  unfold Index.adoptOrder
  cases h : r.1.publishOrder o true (clock o) with
  | error e =>
    refine ⟨⟨rfl, rfl, rfl⟩, fun _ _ => rfl, ?_⟩
    rintro hstore _ (_ | ⟨_, ⟨⟩⟩) hchecked hadoptable
    obtain ⟨_, hok⟩ := publishOrder_of_adoptable true (clock o) hstore hchecked hadoptable
    rw [h] at hok
    cases hok
  | ok stored =>
    obtain ⟨idx', row⟩ := stored
    obtain ⟨pos, -, hpos, hunspent, hmult, -, rfl, rfl⟩ := publishOrder_ok h
    refine ⟨⟨rfl, rfl, rfl⟩, ?_, ?_⟩
    · intro k hk
      exact Finmap.lookup_insert_of_ne _ (by simpa using hk)
    · rintro - _ (_ | ⟨_, ⟨⟩⟩) - -
      exact ⟨_, Finmap.lookup_insert _, rfl⟩

/-- The loop leaves each order it can take, since no two orders of a page share their key. -/
theorem adoptOrders_adopts (clock : Order → Clock) (hkeys : (orders.map Order.key).Nodup) (r : Index × ℕ) :
    Index.Adopts orders r.1 (orders.foldl (Index.adoptOrder clock) r).1 := by
  induction orders generalizing r with
  | nil => exact ⟨⟨rfl, rfl, rfl⟩, fun _ _ => rfl, by simp⟩
  | cons o orders ih =>
    rw [List.map_cons, List.nodup_cons] at hkeys
    obtain ⟨hfirst, hrest⟩ := hkeys
    have hstep := adoptOrder_adopts clock r o
    have hloop := ih hrest (Index.adoptOrder clock r o)
    rw [List.foldl_cons]
    refine ⟨⟨?_, ?_, ?_⟩, ?_, ?_⟩
    · rw [hloop.view.storeErr, hstep.view.storeErr]
    · rw [hloop.view.positions, hstep.view.positions]
    · rw [hloop.view.tombstones, hstep.view.tombstones]
    · intro k hk
      rw [List.map_cons, List.mem_cons, not_or] at hk
      rw [hloop.others k hk.2, hstep.others k (by simpa using hk.1)]
    · intro hstore o' ho' hchecked hadoptable
      rcases List.mem_cons.mp ho' with rfl | hmem
      · have hhas := hstep.taken hstore o' List.mem_cons_self hchecked hadoptable
        exact hhas.of_lookup (hloop.others o'.key hfirst)
      · exact hloop.taken (hstep.view.storeErr.trans hstore) o' hmem hchecked (hadoptable.of_sameView hstep.view)

end

/-! The page that a peer serves. -/
section
variable {peer : Index} {o : Order}

theorem mirrorReply_eq (peer : Index) :
    peer.mirrorReply = .ok ((peer.store.orderRows none peer.isPendingSpend).take 500) :=
  congrArg Except.ok (Page.truncate_window (p := ⟨500, 0⟩) (by decide) _)

theorem published?_checked {e : Event} (h : published? peer e = some o) : o.Checked := by
  have hpublish : ∀ {o' fromMirror clock}, (peer.publishOrder o' fromMirror clock).toOption.map Prod.snd = some o →
      o.Checked := by
    intro o' fromMirror clock h
    obtain ⟨⟨idx, row⟩, hok, rfl⟩ := Option.map_eq_some_iff.mp h
    rw [toOption_eq_some] at hok
    have hchecked := publishOrder_checked hok
    obtain ⟨pos, -, -, -, -, -, rfl, -⟩ := publishOrder_ok hok
    exact ⟨hchecked.scriptSig, hchecked.paymentValue, hchecked.paymentScript⟩
  cases e with
  | publishOrder o' clock => exact hpublish h
  | adoptMirroredOrder o' clock => exact hpublish h
  | _ => cases h

/-- What holds of a relay that takes orders by its own rules only. -/
structure Store.Honest (t : Store) : Prop where
  relay : t.RelayOk
  checked : ∀ o, t.Holds o → o.Checked

theorem pendingStep_store (crypto : Crypto) (ec : Btcec) (s : PendingState) (e : PendingEvent) :
    (pendingStep crypto ec s e).idx.store = s.idx.store ∨
      ∃ event, (pendingStep crypto ec s e).idx.store = (Index.step crypto ec s.idx event).store := by
  cases e with
  | node node => exact .inl rfl
  | index event => exact .inr ⟨event, rfl⟩
  | poll rpcOk readOk =>
    refine .inl ?_
    simp only [pendingStep, pollTick]
    split
    · split_ifs <;> rfl
    · rfl
    · split <;> rfl
  | call id txid rpcOk => exact .inl (by rw [pendingStep, noteStart_idx])
  | note id readOk =>
    refine .inl ?_
    simp only [pendingStep, noteTick]
    split
    · rfl
    · split <;> rfl

theorem honest_pendingAfter (crypto : Crypto) (ec : Btcec) (reorgWindow : ℤ) (events : List PendingEvent) :
    (pendingAfter crypto ec reorgWindow events).idx.store.Honest := by
  refine List.foldlRecOn (motive := fun s : PendingState => s.idx.store.Honest) events _ ?_ ?_
  · have hempty := relayOk_indexAfter crypto ec reorgWindow []
    refine ⟨hempty, ?_⟩
    rintro o (⟨k, hk⟩ | ⟨h, ch, hlog, -⟩)
    · simp [newIndex] at hk
    · simp [newIndex, Store.undoLog?] at hlog
  · intro s hs e _
    rcases pendingStep_store crypto ec s e with heq | ⟨event, heq⟩
    · rwa [heq]
    · rw [heq]
      refine ⟨hs.relay.step (storeStep event), ?_⟩
      intro o ho
      rcases holds_step ho with hbefore | hpublished
      · exact hs.checked o hbefore
      · exact published?_checked hpublished

theorem map_filterMap_sublist {α β : Type*} {f : α → Option β} {g : β → α} (h : ∀ a b, f a = some b → g b = a)
    (l : List α) : ((l.filterMap f).map g).Sublist l := by
  induction l with
  | nil => exact .refl []
  | cons a l ih =>
    cases hf : f a with
    | none => rw [List.filterMap_cons_none hf]; exact ih.cons a
    | some b => rw [List.filterMap_cons_some hf, List.map_cons, h a b hf]; exact ih.cons_cons a

variable {t : Store} {multiplier : Option ℤ} {excluded : Outpoint → Bool} {k : Outpoint} {row : Order}

theorem openOrder?_eq_some (h : t.openOrder? multiplier excluded k row = some o) :
    ∃ value origin, o = { row with backingValue := value, origin := origin } := by
  unfold Store.openOrder? at h
  split at h
  · cases h
  · split_ifs at h
    exact ⟨_, _, (Option.some.inj h).symm⟩

theorem Store.Honest.checked_of_mem (h : t.Honest) (ho : o ∈ t.orderRows multiplier excluded) : o.Checked := by
  obtain ⟨k, row, hrow, hopen⟩ := mem_orderRows.mp ho
  obtain ⟨value, origin, rfl⟩ := openOrder?_eq_some hopen
  have hchecked := h.checked row (.inl ⟨k, hrow⟩)
  exact ⟨hchecked.scriptSig, hchecked.paymentValue, hchecked.paymentScript⟩

theorem Store.Honest.nodup_keys (h : t.Honest) (multiplier : Option ℤ) (excluded : Outpoint → Bool) :
    ((t.orderRows multiplier excluded).map Order.key).Nodup := by
  refine (Finset.sort_nodup _ _).sublist (map_filterMap_sublist ?_ _)
  intro k o ho
  obtain ⟨row, hrow, hopen⟩ := Option.bind_eq_some_iff.mp ho
  obtain ⟨value, origin, rfl⟩ := openOrder?_eq_some hopen
  exact h.relay.book.orders_keyed k row hrow

theorem Store.Honest.mirrorOnce (h : peer.store.Honest) {idx : Index} (hstore : idx.storeErr = none)
    (clock : Order → Clock) :
    (∀ o ∈ peer.listOrders none, idx.Adoptable o → (idx.mirrorOnce peer.mirrorReply clock).1.HasOrder o) ↔
      ∀ o ∈ (peer.store.orderRows none peer.isPendingSpend).drop 500, idx.Adoptable o → idx.HasOrder o := by
  have hkeys := h.nodup_keys none peer.isPendingSpend
  have hchecked : ∀ o ∈ peer.store.orderRows none peer.isPendingSpend, o.Checked := fun _ => h.checked_of_mem
  simp only [← mem_orderRows_iff_listOrders]
  rw [mirrorReply_eq, Index.mirrorOnce]
  generalize peer.store.orderRows none peer.isPendingSpend = rows at hkeys hchecked
  have hrows := List.take_append_drop 500 rows
  rw [← hrows, List.map_append, List.nodup_append] at hkeys
  obtain ⟨hpage, -, hdisjoint⟩ := hkeys
  have hadopts := adoptOrders_adopts clock hpage (idx, 0)
  have hpast : ∀ o ∈ rows.drop 500, o.key ∉ (rows.take 500).map Order.key := fun o ho hmem =>
    hdisjoint o.key hmem o.key (List.mem_map_of_mem ho) rfl
  constructor
  · intro hall o ho hadoptable
    have hhas := hall o (List.mem_of_mem_drop ho) hadoptable
    exact hhas.of_lookup (hadopts.others o.key (hpast o ho)).symm
  · intro hheld o ho hadoptable
    rw [← hrows, List.mem_append] at ho
    rcases ho with hfirst | hlater
    · exact hadopts.taken hstore o hfirst (hchecked o (List.mem_of_mem_take hfirst)) hadoptable
    · exact (hheld o hlater hadoptable).of_lookup (hadopts.others o.key (hpast o hlater))

end

/-- A mirror has every open order of the peer that it can take exactly when it has those past the peer's first page
already: only the first 500 by key are fetched. -/
theorem mirror_copies_book_iff (crypto : Crypto) (ec : Btcec) (reorgWindow : ℤ) (events : List PendingEvent) (idx : Index)
    (hstore : idx.storeErr = none) (clock : Order → Clock) :
    let peer := (pendingAfter crypto ec reorgWindow events).idx
    (∀ o ∈ peer.listOrders none, idx.Adoptable o → (idx.mirrorOnce peer.mirrorReply clock).1.HasOrder o) ↔
      ∀ o ∈ (peer.store.orderRows none peer.isPendingSpend).drop 500, idx.Adoptable o → idx.HasOrder o :=
  (honest_pendingAfter crypto ec reorgWindow events).mirrorOnce hstore clock

/-- The one order of a small book is copied. -/
theorem mirror_copies_offer :
    let home := indexAfter (Crypto.recorded []) (Btcec.recorded []) 15000 [.applyBlock (sampleBlock '0' 0 [] [sampleMint])]
    let peer := (pendingAfter (Crypto.recorded []) (Btcec.recorded []) 15000 (sampleOffer.map .index)).idx
    home.storeErr = none ∧ (peer.listOrders none).map Order.key = {sampleOrder.key} ∧
      ∀ o ∈ peer.listOrders none, home.Adoptable o →
        (home.mirrorOnce peer.mirrorReply fun _ => sampleClock).1.HasOrder o := by
  intro home peer
  have hstore : home.storeErr = none := by decide +kernel
  have hlist : (peer.listOrders none).map Order.key = {sampleOrder.key} := by decide +kernel
  have hpage : (peer.store.orderRows none peer.isPendingSpend).drop 500 = [] := by decide +kernel
  have hcopies := (mirror_copies_book_iff (Crypto.recorded []) (Btcec.recorded []) 15000 (sampleOffer.map .index) home
    hstore fun _ => sampleClock).mpr
  refine ⟨hstore, hlist, hcopies fun o ho => ?_⟩
  have hnone : o ∈ [] := hpage ▸ ho
  cases hnone

/-! A relay with many open orders, and one that only has the chain. -/

def crowdTxid : Text := sampleTxid 'd'

def crowdKey (i : ℕ) : Outpoint := positionKey crowdTxid (UInt32.ofNat i)

def crowdOutput (i : ℕ) : RPCVout := sampleCovenant ⟨sampleKey, 40, [], true⟩ 100 (UInt32.ofNat i)

def crowdOutputs (n : ℕ) : List RPCVout := (List.range n).map crowdOutput

def crowdOrder (i : ℕ) : Order := { sampleOrder with txid := crowdTxid, vout := UInt32.ofNat i }

theorem nodup_range_uint32 {n : ℕ} (h : n ≤ 2 ^ 32) : ((List.range n).map UInt32.ofNat).Nodup := by
  refine List.Nodup.map_on ?_ List.nodup_range
  intro i hi j hj heq
  have hi : i < 2 ^ 32 := (List.mem_range.mp hi).trans_le h
  have hj : j < 2 ^ 32 := (List.mem_range.mp hj).trans_le h
  have htoNat := congrArg UInt32.toNat heq
  rwa [UInt32.toNat_ofNat_of_lt' hi, UInt32.toNat_ofNat_of_lt' hj] at htoNat

def crowdTx (n : ℕ) (h : n ≤ 2 ^ 32) : RPCTx where
  txid := crowdTxid
  vin := [⟨sampleTxid 'e', 0, []⟩]
  vout := crowdOutputs n
  vout_nodup := by
    rw [crowdOutputs, List.map_map]
    exact nodup_range_uint32 h

def crowdEvents (n : ℕ) (h : n ≤ 2 ^ 32) : List Event :=
  .applyBlock (sampleBlock '0' 0 [] [crowdTx n h]) :: (List.range n).map fun i => .publishOrder (crowdOrder i) sampleClock

/-- Every position is unspent and has the multiplier of the orders, and those of `keys` are there. -/
structure Store.Crowd (keys : List Outpoint) (t : Store) : Prop where
  all : ∀ k pos, t.positions.lookup k = some pos → pos.spent = false ∧ pos.multiplier = 40
  known : ∀ k ∈ keys, k ∈ t.positions

section
variable {n : ℕ} {h : n ≤ 2 ^ 32}

theorem covenantOf?_crowdOutput (i : ℕ) : covenantOf? (crowdOutput i) = some ⟨sampleKey, 40, [], true⟩ := by
  have hparse : Ports.Indexer.parseUAPScript (hexEncode (Script.uapScript ⟨sampleKey, 40, [], true⟩)) =
      .ok (some ⟨sampleKey, 40, [], true⟩) := by decide +kernel
  simp only [covenantOf?, crowdOutput, sampleCovenant, hparse]

theorem positionOf_crowdOutput (crypto : Crypto) (i : ℕ) :
    ∃ pos, positionOf crypto 0 (crowdTx n h) (crowdOutput i) ⟨sampleKey, 40, [], true⟩ = .ok pos ∧
      pos.key = crowdKey i ∧ pos.spent = false ∧ pos.multiplier = 40 := by
  have horigin : ∃ origin, uapOriginFromOutpoint crypto crowdTxid (UInt32.ofNat i) = .ok origin := by
    have htxid : ∃ bytes, hexDecode? crowdTxid = some bytes ∧ bytes.length = 32 := ⟨_, rfl, by decide⟩
    obtain ⟨bytes, hbytes, hlength⟩ := htxid
    exact ⟨_, by rw [uapOriginFromOutpoint, hbytes]; exact if_neg (not_not.mpr hlength)⟩
  obtain ⟨origin, horigin⟩ := horigin
  rw [positionOf, originOf, if_pos rfl, show uapOriginFromOutpoint crypto (crowdTx n h).txid (crowdOutput i).n = _ from horigin,
    ok_bind]
  exact ⟨_, rfl, rfl, rfl, rfl⟩

theorem Store.Crowd.putPosition {keys : List Outpoint} {t : Store} (ht : t.Crowd keys) {pos : Position}
    (hunspent : pos.spent = false) (hmult : pos.multiplier = 40) : (t.putPosition pos).Crowd (keys ++ [pos.key]) := by
  refine ⟨?_, ?_⟩
  · intro k p hp
    by_cases hk : k = pos.key
    · rw [hk] at hp
      refine ⟨upsertPosition_unspent hunspent hp, ?_⟩
      simp only [Store.putPosition, upsertPosition] at hp
      cases hrow : t.positions.lookup pos.key with
      | none =>
        simp only [hrow, Finmap.lookup_insert, Option.some.injEq] at hp
        rw [← hp, hmult]
      | some row =>
        simp only [hrow, Finmap.lookup_insert, Option.some.injEq] at hp
        rw [← hp]
        exact (ht.all pos.key row hrow).2
    · rw [Store.putPosition, lookup_upsertPosition_ne hk] at hp
      exact ht.all k p hp
  · intro k hk
    rw [Store.putPosition, mem_upsertPosition]
    rcases List.mem_append.mp hk with hk | hk
    · exact .inr (ht.known k hk)
    · exact .inl (List.mem_singleton.mp hk)

variable {crypto : Crypto} {ec : Btcec}

theorem applyVout_crowd (crypto : Crypto) (indices : List ℕ) {keys : List Outpoint} {t : BlockState}
    (ht : t.store.Crowd keys) : ∃ t', (indices.map crowdOutput).foldlM (applyVout crypto 0 (crowdTx n h)) t = .ok t' ∧
      t'.store.Crowd (keys ++ indices.map crowdKey) ∧ t'.store.orders = t.store.orders ∧
      t'.store.tombstones = t.store.tombstones := by
  induction indices generalizing t keys with
  | nil => exact ⟨t, rfl, by simpa using ht, rfl, rfl⟩
  | cons i indices ih =>
    obtain ⟨pos, hpos, hkey, hunspent, hmult⟩ := positionOf_crowdOutput (n := n) (h := h) crypto i
    have hput := ht.putPosition hunspent hmult
    obtain ⟨t', hrun, hcrowd, horders, htombstones⟩ := @ih _
      ⟨(t.store.putPosition pos).addToLineage pos,
        { t.change with created := t.change.created ++ [positionKey (crowdTx n h).txid (crowdOutput i).n] }⟩ ⟨hput.all, hput.known⟩
    refine ⟨t', ?_, ?_, horders, htombstones⟩
    · rw [List.map_cons, List.foldlM_cons, applyVout, covenantOf?_crowdOutput]
      simp only [hpos, ok_bind]
      exact hrun
    · rwa [hkey, List.append_assoc] at hcrowd

theorem crowd_applyBlock (crypto : Crypto) (ec : Btcec) (h : n ≤ 2 ^ 32) :
    let home := indexAfter crypto ec 15000 [.applyBlock (sampleBlock '0' 0 [] [crowdTx n h])]
    home.store.Crowd ((List.range n).map crowdKey) ∧ home.store.orders = ∅ ∧ home.store.tombstones = ∅ ∧
      home.storeErr = none ∧ home.pendingSpends = ∅ := by
  have hempty : (⟨{}, {}⟩ : BlockState).store.Crowd [] := ⟨by simp, by simp⟩
  obtain ⟨t, hrun, hcrowd, horders, htombstones⟩ := applyVout_crowd (n := n) (h := h) crypto (List.range n) hempty
  have happly : (newIndex 15000).applyBlock crypto (sampleBlock '0' 0 [] [crowdTx n h]) =
      { newIndex 15000 with
        store := t.store.putHeight 0 (sampleTxid '0') t.change, tipHeight := 0, tipHash := sampleTxid '0' } := by
    have htx : applyTxs crypto 0 ⟨{}, {}⟩ [crowdTx n h] = .ok t := by
      rw [applyTxs, List.foldlM_cons, applyTx]
      exact congrArg (· >>= pure) hrun
    simp only [Index.applyBlock, Index.write, newIndex, Store.applyBlock, sampleBlock, htx, ok_bind]
    rfl
  intro home
  have hhome : home = _ := happly
  rw [hhome]
  exact ⟨⟨hcrowd.all, hcrowd.known⟩, horders, htombstones, rfl, rfl⟩

/-- What holds of the relay while the orders come in. -/
structure CrowdPeer (home peer : Index) (keys : List Outpoint) : Prop where
  storeErr : peer.storeErr = none
  positions : peer.store.positions = home.store.positions
  pending : peer.pendingSpends = ∅
  standing : ∀ k, peer.store.tombstone? k = none
  stored : ∀ k ∈ keys, k ∈ peer.store.orders
  multiplier : ∀ k row, peer.store.orders.lookup k = some row → row.multiplier = 40

theorem crowdOrder_checked (i : ℕ) : (crowdOrder i).Checked := by
  have hscriptSig : validateScriptSig (hexEncode sampleScriptSig) = .ok () := by decide +kernel
  have hscript : hexDecode? sampleOrder.paymentScript ≠ none := by decide +kernel
  exact ⟨hscriptSig, show (0 : ℤ) < 500 by decide, hscript⟩

theorem CrowdPeer.publish {home peer : Index} {keys : List Outpoint} {i : ℕ} (hpeer : CrowdPeer home peer keys)
    (hknown : crowdKey i ∈ home.store.positions) (hall : ∀ k pos, home.store.positions.lookup k = some pos →
      pos.spent = false ∧ pos.multiplier = 40) :
    CrowdPeer home (Index.step crypto ec peer (.publishOrder (crowdOrder i) sampleClock)) (keys ++ [crowdKey i]) := by
  obtain ⟨pos, hpos⟩ := Finmap.mem_iff.mp hknown
  obtain ⟨hunspent, hmult⟩ := hall _ pos hpos
  have hadoptable : peer.Adoptable (crowdOrder i) := by
    refine ⟨⟨pos, ?_, hunspent, hmult⟩, ?_⟩
    · rw [hpeer.positions]
      exact hpos
    · rw [hpeer.standing]
      exact nofun
  obtain ⟨⟨peer', row⟩, hok⟩ :=
    publishOrder_of_adoptable false sampleClock hpeer.storeErr (crowdOrder_checked i) hadoptable
  obtain ⟨pos', -, -, -, -, -, rfl, rfl⟩ := publishOrder_ok hok
  rw [Index.step, hok]
  refine ⟨hpeer.storeErr, hpeer.positions, hpeer.pending, ?_, ?_, ?_⟩
  · intro k
    have hbefore := hpeer.standing k
    rw [Store.tombstone?, Option.map_eq_none_iff] at hbefore ⊢
    change (peer.store.tombstones.erase _).lookup k = none
    rw [Table.lookup_erase_eq, hbefore, ite_self]
  · intro k hk
    rw [Store.accept_orders, Finmap.mem_insert]
    rcases List.mem_append.mp hk with hk | hk
    · exact .inr (hpeer.stored k hk)
    · exact .inl (List.mem_singleton.mp hk)
  · intro k row hrow
    rw [Store.accept_orders, Table.lookup_insert_eq] at hrow
    split_ifs at hrow
    · obtain rfl := Option.some.inj hrow
      rfl
    · exact hpeer.multiplier k row hrow

theorem crowdPeer_after (crypto : Crypto) (ec : Btcec) (h : n ≤ 2 ^ 32) :
    CrowdPeer (indexAfter crypto ec 15000 [.applyBlock (sampleBlock '0' 0 [] [crowdTx n h])])
      (indexAfter crypto ec 15000 (crowdEvents n h)) ((List.range n).map crowdKey) := by
  obtain ⟨hcrowd, horders, htombstones, hstoreErr, hpending⟩ := crowd_applyBlock crypto ec h
  have hrun : ∀ m ≤ n, CrowdPeer (indexAfter crypto ec 15000 [.applyBlock (sampleBlock '0' 0 [] [crowdTx n h])])
      (run (Index.step crypto ec) (indexAfter crypto ec 15000 [.applyBlock (sampleBlock '0' 0 [] [crowdTx n h])])
        ((List.range m).map fun i => .publishOrder (crowdOrder i) sampleClock)) ((List.range m).map crowdKey) := by
    intro m hm
    induction m with
    | zero =>
      refine ⟨hstoreErr, rfl, hpending, ?_, by simp, ?_⟩
      · intro k
        rw [List.range_zero, List.map_nil, run_nil, Store.tombstone?, htombstones]
        rfl
      · intro k row hrow
        rw [List.range_zero, List.map_nil, run_nil, horders] at hrow
        cases hrow
    | succ m ih =>
      have hknown := hcrowd.known (crowdKey m) (List.mem_map_of_mem (List.mem_range.mpr hm))
      rw [List.range_succ, List.map_append, List.map_append, run_append, List.map_singleton, List.map_singleton, run_cons,
        run_nil]
      exact (ih (Nat.le_of_succ_le hm)).publish hknown hcrowd.all
  exact hrun n le_rfl

theorem nodup_crowdKey (h : n ≤ 2 ^ 32) : ((List.range n).map crowdKey).Nodup := by
  have hinj : Function.Injective (positionKey crowdTxid) := fun _ _ heq => congrArg Outpoint.vout heq
  have hkeys := (nodup_range_uint32 h).map hinj
  rwa [List.map_map] at hkeys

section
variable {home peer : Index} {keys : List Outpoint} {o : Order} (hpeer : CrowdPeer home peer keys)
  (hhonest : peer.store.Honest)
include hpeer hhonest

theorem CrowdPeer.length_le (hhome : home.store.Crowd keys) (hkeys : keys.Nodup) :
    keys.length ≤ (peer.store.orderRows none peer.isPendingSpend).length := by
  have hsub : keys ⊆ (peer.store.orderRows none peer.isPendingSpend).map Order.key := by
    intro k hk
    obtain ⟨row, hrow⟩ := Finmap.mem_iff.mp (hpeer.stored k hk)
    obtain ⟨pos, hpos⟩ := Finmap.mem_iff.mp (hhome.known k hk)
    have hunspent := (hhome.all k pos hpos).1
    have hpending : peer.isPendingSpend k = false := by rw [Index.isPendingSpend, hpeer.pending]; rfl
    have hopen : peer.store.openOrder? none peer.isPendingSpend k row =
        some { row with backingValue := pos.value, origin := pos.origin } := by
      rw [Store.openOrder?, hpeer.positions, hpos]
      simp [hunspent, hpending]
    exact List.mem_map.mpr ⟨_, mem_orderRows.mpr ⟨k, row, hrow, hopen⟩, hhonest.relay.book.orders_keyed k row hrow⟩
  have hlength := (hkeys.subperm hsub).length_le
  rwa [List.length_map] at hlength

theorem CrowdPeer.adoptable (hall : ∀ k pos, home.store.positions.lookup k = some pos →
      pos.spent = false ∧ pos.multiplier = 40) (htombstones : home.store.tombstones = ∅)
    (ho : o ∈ peer.store.orderRows none peer.isPendingSpend) : home.Adoptable o := by
  obtain ⟨k, row, hrow, hopen⟩ := mem_orderRows.mp ho
  obtain ⟨value, origin, rfl⟩ := openOrder?_eq_some hopen
  have hkey : row.key = k := hhonest.relay.book.orders_keyed k row hrow
  have hpos : ∃ pos, home.store.positions.lookup k = some pos := by
    rw [Store.openOrder?, hpeer.positions] at hopen
    cases hlookup : home.store.positions.lookup k with
    | none => simp [hlookup] at hopen
    | some pos => exact ⟨pos, rfl⟩
  obtain ⟨pos, hpos⟩ := hpos
  obtain ⟨hunspent, hmult⟩ := hall k pos hpos
  refine ⟨⟨pos, ?_, hunspent, hmult.trans (hpeer.multiplier k row hrow).symm⟩, ?_⟩
  · rw [← hkey] at hpos
    exact hpos
  · rw [Store.tombstone?, htombstones]
    intro hfragment
    cases hfragment

theorem CrowdPeer.misses (hhome : home.store.Crowd keys) (horders : home.store.orders = ∅)
    (htombstones : home.store.tombstones = ∅) (hstore : home.storeErr = none) (hkeys : keys.Nodup)
    (hmany : 500 < keys.length) (clock : Order → Clock) : ∃ o ∈ peer.listOrders none, home.Adoptable o ∧
      ¬ (home.mirrorOnce peer.mirrorReply clock).1.HasOrder o := by
  by_contra hall
  push Not at hall
  have hlength := hpeer.length_le hhonest hhome hkeys
  have hpast : 0 < ((peer.store.orderRows none peer.isPendingSpend).drop 500).length := by
    rw [List.length_drop]
    omega
  obtain ⟨o, ho⟩ := List.exists_mem_of_length_pos hpast
  have hadoptable := hpeer.adoptable hhonest hhome.all htombstones (List.mem_of_mem_drop ho)
  -- an order past the page would have to be here already
  obtain ⟨row, hrow, -⟩ := (hhonest.mirrorOnce hstore clock).mp hall o ho hadoptable
  rw [horders] at hrow
  cases hrow

end

theorem pendingAfter_index (crypto : Crypto) (ec : Btcec) (reorgWindow : ℤ) (events : List Event) :
    (pendingAfter crypto ec reorgWindow (events.map .index)).idx = indexAfter crypto ec reorgWindow events := by
  induction events using List.reverseRecOn with
  | nil => rfl
  | append_singleton events e ih =>
    rw [pendingAfter, List.map_append, run_append, indexAfter, run_append, ← pendingAfter, ← indexAfter, ← ih]
    rfl

theorem crowd_misses (crypto : Crypto) (ec : Btcec) (h : n ≤ 2 ^ 32) (hmany : 500 < n) (clock : Order → Clock) :
    let home := indexAfter crypto ec 15000 [.applyBlock (sampleBlock '0' 0 [] [crowdTx n h])]
    let peer := (pendingAfter crypto ec 15000 ((crowdEvents n h).map .index)).idx
    home.storeErr = none ∧ ∃ o ∈ peer.listOrders none, home.Adoptable o ∧
      ¬ (home.mirrorOnce peer.mirrorReply clock).1.HasOrder o := by
  intro home peer
  obtain ⟨hcrowd, horders, htombstones, hstoreErr, -⟩ := crowd_applyBlock crypto ec h
  have hpeer : CrowdPeer home peer ((List.range n).map crowdKey) := by
    rw [show peer = _ from pendingAfter_index crypto ec 15000 (crowdEvents n h)]
    exact crowdPeer_after crypto ec h
  exact ⟨hstoreErr, hpeer.misses (honest_pendingAfter crypto ec 15000 _) hcrowd horders htombstones hstoreErr
    (nodup_crowdKey h) (by simpa using hmany) clock⟩

end

/-- With 501 open orders at the peer, an index that has the chain and no orders does not get all of them. -/
theorem mirror_misses_order :
    let home := indexAfter (Crypto.recorded []) (Btcec.recorded []) 15000
      [.applyBlock (sampleBlock '0' 0 [] [crowdTx 501 (by decide)])]
    let peer := (pendingAfter (Crypto.recorded []) (Btcec.recorded []) 15000
      ((crowdEvents 501 (by decide)).map .index)).idx
    home.storeErr = none ∧ ∃ o ∈ peer.listOrders none, home.Adoptable o ∧
      ¬ (home.mirrorOnce peer.mirrorReply fun _ => sampleClock).1.HasOrder o :=
  crowd_misses (Crypto.recorded []) (Btcec.recorded []) (by decide) (by decide) fun _ => sampleClock

end Whippet.Indexer
