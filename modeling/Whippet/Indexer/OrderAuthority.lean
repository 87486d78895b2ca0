import Whippet.Indexer.Withdrawals
import Whippet.Script.Checker

/-! What can change the order stored for an unspent position. -/
namespace Whippet.Indexer
open Lib Primitives Script

def Replaces (k : Outpoint) (s : Index) : Event → Prop
  | .publishOrder o clock => o.key = k ∧ (s.publishOrder o false clock).isOk = true
  | .adoptMirroredOrder o clock => o.key = k ∧ (s.publishOrder o true clock).isOk = true
  | _ => False

/-- The event carries the key's signature under the cancellation of the order. -/
def SignsCancel (crypto : Crypto) (ec : Btcec) (pubKey : Text) (k : Outpoint) (o : Order) : Event → Prop
  | .cancelOrder txid vout sig _ => positionKey txid vout = k ∧
      verifyCancelSignature crypto ec pubKey txid vout o.scriptSig o.cancelNonce sig = .ok ()
  | _ => False

def Store.Unspent (t : Store) (k : Outpoint) : Prop := ∃ pos, t.positions.lookup k = some pos ∧ pos.spent = false

section
variable {crypto : Crypto} {ec : Btcec} {reorgWindow : ℤ} {known : RPCTx → Prop} {chain : List RPCBlock} {s : Index}
  {k : Outpoint} {o : Order}

theorem Store.Unspent.not_spent {t : Store} (h : t.Unspent k) :
    ¬ ∃ pos, t.positions.lookup k = some pos ∧ pos.spent = true := by
  obtain ⟨pos, hpos, hunspent⟩ := h
  rintro ⟨p, hp, hspent⟩
  obtain rfl := Option.some.inj (hpos.symm.trans hp)
  rw [hunspent] at hspent
  cases hspent

theorem stored_order_kept {e : Event} {pos : Position} (hchain : ChainInv crypto ec reorgWindow chain s)
    (hrelay : s.store.RelayOk) (hterms : s.store.TermsOk crypto known) (hknown : ConsistentTxids known)
    (ho : s.store.orders.lookup k = some o) (hpos : HasTerms crypto known k pos.terms) (hunspent : s.store.Unspent k)
    (hev : ChainEvent crypto s e) (hafter : (Index.step crypto ec s e).store.Unspent k) (hreplaces : ¬ Replaces k s e)
    (hsigns : ¬ SignsCancel crypto ec pos.pubKey k o e) :
    (Index.step crypto ec s e).store.orders.lookup k = some o := by
  have hstep : StoreStep crypto ec s e (Index.step crypto ec s e).store := storeStep e
  generalize (Index.step crypto ec s e).store = t at hafter hstep ⊢
  cases hstep with
  | refused => exact ho
  | @applied block t heights hrun hrecorded =>
    have hbook := BookInv.txs hrelay.book hrun
    have hblock := BlockInv.txs hchain.rowsOk rfl hev.2.1 hrun
    rcases hbook.pruned.all k o ho with hkept | hlogged
    · exact hkept
    · -- a pruned order's position is spent after the block
      have hkey := hrelay.book.orders_keyed k o ho
      have hspent := hblock.logged.spent o.key (hbook.pruned.logged o hlogged).2.2
      rw [hkey] at hspent
      exact absurd hspent hafter.not_spent
  | @undone height ch hlog =>
    change (s.store.undoChange ch).orders.lookup k = some o
    rw [Store.undoChange_orders]
    split_ifs with hcreated
    · exact ho
    · cases hfind : ch.ordersPruned.reverse.find? fun o => o.key = k with
      | none => rw [Option.none_or, ho]
      | some o' =>
        have hkey : o'.key = k := by simpa using List.find?_some hfind
        have hmem := hrelay.logs height ch hlog o' (List.mem_reverse.mp (List.mem_of_find?_eq_some hfind))
        rw [hkey] at hmem
        exact absurd (hchain.logged_spent hlog hmem) hunspent.not_spent
  | reset =>
    obtain ⟨p, hp, -⟩ := hafter
    simp [Store.truncate] at hp
  | @taken o' fromMirror clock p haccepted _ _ _ _ =>
    have hne : k ≠ o'.key := by
      intro hk
      cases fromMirror with
      | false => exact hreplaces ⟨hk.symm, haccepted⟩
      | true => exact hreplaces ⟨hk.symm, haccepted⟩
    rw [Store.accept_orders, Table.lookup_insert_eq, Order.key_complete, if_neg hne, ho]
  | @withdrawn txid sig vout clock o' hstored hsigned =>
    have hne : k ≠ positionKey txid vout := by
      rintro rfl
      obtain rfl := Option.some.inj (ho.symm.trans hstored)
      have hpub : o.pubKey = pos.pubKey := congrArg Terms.pubKey ((hterms.orders _ o ho).unique hknown hpos)
      exact hsigns ⟨rfl, hpub ▸ hsigned⟩
    rw [Store.withdraw, Store.putTombstone, Store.delOrder, Table.lookup_erase_eq, if_neg hne, ho]

end

/-- While a position stays unspent its stored order stays as it is, until the relay takes another order for the
outpoint or the position's key signs the cancellation of this one. -/
theorem stored_order_stays (crypto : Crypto) (ec : Btcec) (reorgWindow : ℤ) (known : RPCTx → Prop)
    (hknown : ConsistentTxids known) (before after : List Event) (hevents : ∀ e ∈ before ++ after, KnownEvent known e)
    (hbefore : Admissible (Index.step crypto ec) (ChainEvent crypto) (newIndex reorgWindow) before)
    (k : Outpoint) (o : Order) (pos : Position)
    (ho : (indexAfter crypto ec reorgWindow before).store.orders.lookup k = some o)
    (hpos : (indexAfter crypto ec reorgWindow before).store.positions.lookup k = some pos) (hunspent : pos.spent = false)
    (hafter : Admissible (Index.step crypto ec) (fun s e => ChainEvent crypto s e ∧
      (Index.step crypto ec s e).store.Unspent k ∧ ¬ Replaces k s e ∧ ¬ SignsCancel crypto ec pos.pubKey k o e)
      (indexAfter crypto ec reorgWindow before) after) :
    (run (Index.step crypto ec) (indexAfter crypto ec reorgWindow before) after).store.orders.lookup k = some o := by
  rw [List.forall_mem_append] at hevents
  have hchain := chainInv_run hbefore
  have hrelay := relayOk_indexAfter crypto ec reorgWindow before
  have hterms : (indexAfter crypto ec reorgWindow before).store.TermsOk crypto known :=
    termsOk_indexAfter hknown hevents.1
  have hposTerms := hterms.positions.terms k pos hpos
  generalize indexAfter crypto ec reorgWindow before = s₀ at ho hpos hafter hchain hrelay hterms ⊢
  refine (run_invariant (P := fun _ s => (∃ chain, ChainInv crypto ec reorgWindow chain s) ∧ s.store.RelayOk ∧
    s.store.TermsOk crypto known ∧ s.store.Unspent k ∧ s.store.orders.lookup k = some o) ?_ ?_
    (hafter.and (admissible_of_forall hevents.2 s₀))).2.2.2.2
  · exact ⟨⟨_, hchain⟩, hrelay, hterms, ⟨pos, hpos, hunspent⟩, ho⟩
  · rintro - s e ⟨⟨chain, hchain⟩, hrelay, hterms, hthere, ho⟩ ⟨⟨hev, hstays, hreplaces, hsigns⟩, hevent⟩
    exact ⟨⟨_, hchain.step hev⟩, hrelay.step (storeStep e), hterms.step hrelay hknown hevent (storeStep e), hstays,
      stored_order_kept hchain hrelay hterms hknown ho hposTerms hthere hev hstays hreplaces hsigns⟩

/-- A new block leaves the offer alone. -/
theorem stored_order_stays_block : ∃ o,
    (indexAfter (Crypto.recorded []) (Btcec.recorded []) 15000 sampleOffer).store.orders.lookup sampleOrder.key = some o ∧
      (run (Index.step (Crypto.recorded []) (Btcec.recorded []))
        (indexAfter (Crypto.recorded []) (Btcec.recorded []) 15000 sampleOffer)
        [.applyBlock (sampleBlock '1' 1 (sampleTxid '0') [])]).store.orders.lookup sampleOrder.key = some o := by
  have hknown : ConsistentTxids fun tx => tx = sampleMint := by
    rintro tx tx' rfl rfl -
    rfl
  have hevents : ∀ e ∈ sampleOffer ++ [.applyBlock (sampleBlock '1' 1 (sampleTxid '0') [])],
      KnownEvent (fun tx => tx = sampleMint) e := by
    simp only [sampleOffer, List.cons_append, List.nil_append, List.forall_mem_cons]
    exact ⟨fun tx htx => List.mem_singleton.mp htx, trivial, fun tx htx => absurd htx List.not_mem_nil, by simp⟩
  have hbefore : SampleAdmissible (ChainEvent (Crypto.recorded [])) sampleOffer := by decide +kernel
  have hstored : ((indexAfter (Crypto.recorded []) (Btcec.recorded []) 15000 sampleOffer).store.orders.lookup
      sampleOrder.key).isSome := by decide +kernel
  have hposition : ((indexAfter (Crypto.recorded []) (Btcec.recorded []) 15000 sampleOffer).store.positions.lookup
      sampleOrder.key).map Position.spent = some false := by decide +kernel
  have hlater : ((Index.step (Crypto.recorded []) (Btcec.recorded [])
      (indexAfter (Crypto.recorded []) (Btcec.recorded []) 15000 sampleOffer)
      (.applyBlock (sampleBlock '1' 1 (sampleTxid '0') []))).store.positions.lookup sampleOrder.key).map Position.spent =
        some false := by decide +kernel
  have hchain : ChainEvent (Crypto.recorded []) (indexAfter (Crypto.recorded []) (Btcec.recorded []) 15000 sampleOffer)
      (.applyBlock (sampleBlock '1' 1 (sampleTxid '0') [])) := by decide +kernel
  obtain ⟨o, ho⟩ := Option.isSome_iff_exists.mp hstored
  obtain ⟨pos, hpos, hunspent⟩ := Option.map_eq_some_iff.mp hposition
  refine ⟨o, ho, stored_order_stays (Crypto.recorded []) (Btcec.recorded []) 15000 (fun tx => tx = sampleMint) hknown
    sampleOffer [.applyBlock (sampleBlock '1' 1 (sampleTxid '0') [])] hevents hbefore sampleOrder.key o pos ho hpos
    hunspent ⟨⟨hchain, Option.map_eq_some_iff.mp hlater, id, id⟩, trivial⟩⟩

def sampleTrade (nValue : Int64) : TransactionSignatureChecker where
  txTo := {
    nVersion := 1
    vin := [⟨⟨.ofByte 0xaa, 0⟩, [], 0xffffffff, []⟩]
    vout := [⟨nValue, [0x76, 0xa9, 0x14] ++ List.replicate 20 0 ++ [0x88, 0xac]⟩]
    nLockTime := 0 }
  nIn := 0
  amount := 100000000000
  vPrevScriptPubKeys := none
  vPrevAmounts := none

def sampleMaker : Crypto := Crypto.recorded
  [(sampleKey, beBytes 32 0x6176f3a7bd01e0906ce3b3db16f23a3bc6ff8b9a1f7ca649870da6592c4d4efe,
    sampleScriptSig.tail.dropLast)]

/-- Anyone replaces the maker's order at 500, which the position's key signed, by one at 1, which nobody signed. -/
theorem stored_order_replaced :
    let later := sampleOffer ++ [.publishOrder { sampleOrder with paymentValue := 1 } sampleClock]
    let code := uapScript ⟨sampleKey, 40, [], true⟩
    SampleAdmissible (ChainEvent (Crypto.recorded [])) later ∧
      ((indexAfter (Crypto.recorded []) (Btcec.recorded []) 15000 sampleOffer).store.orders.lookup sampleOrder.key).map
        (fun o => (o.paymentValue, o.scriptSig)) = some (500, hexEncode sampleScriptSig) ∧
      (sampleTrade 500).checkSig sampleMaker sampleScriptSig.tail sampleKey code .base = true ∧
      (sampleTrade 1).checkSig sampleMaker sampleScriptSig.tail sampleKey code .base = false ∧
      ((indexAfter (Crypto.recorded []) (Btcec.recorded []) 15000 later).store.orders.lookup sampleOrder.key).map
        (fun o => (o.paymentValue, o.scriptSig)) = some (1, hexEncode sampleScriptSig) ∧
      ((indexAfter (Crypto.recorded []) (Btcec.recorded []) 15000 later).store.positions.lookup sampleOrder.key).map
        Position.spent = some false := by
  decide +kernel

end Whippet.Indexer
