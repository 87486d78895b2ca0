import Whippet.Ports.SpendRules
import Whippet.Validation.Sourced
import Whippet.Web.Market

/-! What a taker gets from a fill that the node accepts, whatever the relay says. The position is read from bytes that
hash to its txid, but the values of the taker's own outputs are the relay's word. -/
namespace Whippet.Web
open Lib Primitives Script Validation Ports
open Indexer (Text)
open Ports.UapJs (defaultDustLimit defaultHardDustLimit recommendedMinTxFee)

def takerIn (view : CCoinsView) (tx : CTransaction) : ℤ :=
  ((tx.vin.drop 1).map fun txin => (prevOutput view txin).nValue.toInt).sum

def changeTo (script : Bytes) (tx : CTransaction) : ℤ :=
  (((tx.vout.drop 2).filter fun out => out.scriptPubKey = script).map (·.nValue.toInt)).sum

/-- The taker gets the whole position, and pays for it what the plan says. -/
structure FairFill (crypto : Crypto) (view : CCoinsView) (pubKey : Bytes) (order : Order) (plan : FillPlan)
    (tx : CTransaction) : Prop where
  token : ∃ op out f, Names order.txid order.vout op ∧ (tx.vin.head?.map (·.prevout)) = some op ∧
    view.output? op = some out ∧ parseUapOutputScript? out.scriptPubKey = some f ∧
    tx.vout[1]? = some ⟨out.nValue, uapScript ⟨pubKey, f.multiplier, inputLineage crypto f op, false⟩⟩
  loss : takerIn view tx - changeTo (buildP2PKHScript crypto pubKey) tx ≤ plan.paymentValue + plan.fee

/-- The byte strings of a fill that must not collide: the transactions that the node was given, and what the relay
serves for the order. -/
def hashedBytes (hist : List CTransaction) (relay : Relay) (order : Order) : Set Bytes :=
  {b | ∃ tx ∈ hist, b = tx.serialize false} ∪
    {b | ∃ rawHex, relay.getRawTx order.txid = .ok rawHex ∧ UapJs.hexToBytes rawHex = .ok b}

/-- The position as `verifyPosition` has read it. -/
structure Verified (crypto : Crypto) (relay : Relay) (order : Order) (verified : VerifiedPosition) (raw : Bytes)
    (tx : UapJs.Tx) (output : PortTxOut) (parsed : UapOutput) (origin : Bytes) : Prop where
  served : ∃ rawHex, relay.getRawTx order.txid = .ok rawHex ∧ UapJs.hexToBytes rawHex = .ok raw
  txid : order.txid = displayHash (crypto.hash256 raw)
  read : UapJs.deserializeTx raw = .ok tx
  output_at : outputAt? tx order.vout = some output
  parse : parseUapOutputScript? output.scriptPubKey = some parsed
  derived : positionOrigin crypto order parsed = .ok origin
  origin_eq : order.origin.map (·.map Char.toLower) = some (hexEncode origin)
  multiplier : order.multiplier = parsed.multiplier
  value : verified.value = output.value

variable {position : Option ℤ}

theorem verifyPosition_eq_ok {crypto : Crypto} {relay : Relay} {order : Order}
    {verified : VerifiedPosition} (h : verifyPosition crypto relay order position = .ok verified) :
    ∃ raw tx output parsed origin, Verified crypto relay order verified raw tx output parsed origin := by
  simp only [verifyPosition, bind_eq_ok, failIf_eq_ok, orFail_eq_ok, pure_eq_ok] at h
  obtain ⟨rawHex, hserved, raw, hraw, ⟨⟩, htxid, tx, htx, output, houtput, parsed, hparsed, origin, hderived, ⟨⟩, horigin,
    ⟨⟩, hmult, ⟨⟩, -, rfl⟩ := h
  have hread : UapJs.deserializeTx raw = .ok tx := by
    cases hdes : UapJs.deserializeTx raw with
    | error e => rw [hdes] at htx; cases htx
    | ok tx' => rw [hdes] at htx; exact htx
  have hparse : UapJs.parseUapScript? output.scriptPubKey = parseUapOutputScript? output.scriptPubKey :=
    parsePushes?_eq UapJs.decodesScriptNum _
  exact ⟨raw, tx, output, parsed, origin, ⟨⟨rawHex, hserved, hraw⟩, (not_not.mp htxid).symm, hread, houtput,
    hparse ▸ hparsed, hderived, not_not.mp horigin, not_not.mp hmult, rfl⟩⟩

section
variable {crypto : Crypto} {hist : List CTransaction} {relay : Relay} {order : Order} {verified : VerifiedPosition}
  {raw : Bytes} {tx : UapJs.Tx} {output : PortTxOut} {parsed : UapOutput} {origin : Bytes} {out : CTxOut}

theorem Verified.output_eq (h : Verified crypto relay order verified raw tx output parsed origin)
    (hfree : Set.InjOn crypto.hash256 (hashedBytes hist relay order)) (hsized : ∀ tx ∈ hist, Sized tx)
    (hmade : Made crypto hist ⟨crypto.hash256 raw, UapJs.toUint32 order.vout⟩ out) :
    output = ⟨out.nValue.toInt, out.scriptPubKey⟩ ∧
      Names order.txid order.vout ⟨crypto.hash256 raw, UapJs.toUint32 order.vout⟩ := by
  obtain ⟨source, hsource, hid, hcoin⟩ := hmade
  obtain rfl : raw = source.serialize false :=
    hfree (.inr h.served) (.inl ⟨source, hsource, rfl⟩) hid.symm
  have hsize := hsized source hsource
  obtain rfl := deserializeTx_serialize hsize h.read
  have houtput := h.output_at
  unfold outputAt? at houtput
  split_ifs at houtput with hnonneg
  rw [List.getElem?_map, Option.map_eq_some_iff] at houtput
  obtain ⟨out', hout', rfl⟩ := houtput
  have hlt : order.vout.toNat < 2 ^ 32 := lt_trans (List.getElem?_eq_some_iff.mp hout').1 hsize.vout_lt
  have hn : ((UapJs.toUint32 order.vout).toNat : ℤ) = order.vout := toUint32_toNat ⟨hnonneg, by omega⟩
  obtain ⟨hcoin, -⟩ := Option.filter_eq_some_iff.mp hcoin
  rw [show (UapJs.toUint32 order.vout).toNat = order.vout.toNat by omega, hout'] at hcoin
  obtain rfl := Option.some.inj hcoin
  refine ⟨rfl, ?_, hn.symm⟩
  rw [h.txid]
  exact txidBytes_displayHash _ _

/-- The lineage that the order has to name is the one that the node derives. -/
theorem Verified.origin_of (h : Verified crypto relay order verified raw tx output parsed origin) {op : COutPoint}
    (hnames : Names order.txid order.vout op) : origin = inputLineage crypto parsed op := by
  have hderived := h.derived
  unfold positionOrigin at hderived
  unfold inputLineage
  split_ifs at hderived ⊢ with hmint
  · exact (Except.ok.inj ((hnames.deriveOrigin crypto).symm.trans hderived)).symm
  · exact (Except.ok.inj hderived).symm

end

variable {plan : FillPlan} {takerUtxos : List Utxo}

theorem buildFillTx_eq_ok {crypto : Crypto} {secp : UapJs.Secp} {privKey pubKey : Bytes} {order : Order}
    {positionValue : ℤ} {built : FillTx}
    (h : buildFillTx crypto secp plan privKey pubKey order positionValue takerUtxos = .ok built) :
    ∃ originHex origin paymentScript script, order.origin = some originHex ∧ originHex.map Char.toLower = originHex ∧
      UapJs.hexToBytes originHex = .ok origin ∧ UapJs.buildTransferScript pubKey order.multiplier origin = .ok script ∧
      built.tx.vin.map UapJs.TxIn.outpoint = (order.txid, order.vout) :: takerUtxos.map (fun u => (u.txid, u.vout)) ∧
      built.tx.vout = [⟨order.paymentValue, paymentScript⟩, ⟨positionValue, script⟩] ++
        if plan.changeValue ≠ 0 then [⟨plan.changeValue, buildP2PKHScript crypto pubKey⟩] else [] := by
  simp only [buildFillTx, bind_eq_ok, orFail_eq_ok, pure_eq_ok] at h
  obtain ⟨originHex, horiginHex, origin, horigin, scriptSig, -, paymentScript, -, filled, hfill, tx, hsign, raw, -, rfl⟩ := h
  obtain ⟨horder, hshape⟩ := Option.filter_eq_some_iff.mp horiginHex
  simp only [decide_eq_true_eq, List.all_eq_true] at hshape
  have hlower : ∀ c ∈ "0123456789abcdef".toList, c.toLower = c := by simp
  obtain ⟨hvout, hvin⟩ := UapJs.signInputs_frame hsign
  simp only [UapJs.fillOrder, bind_eq_ok, failIf_eq_ok, pure_eq_ok] at hfill
  obtain ⟨origin', horigin', ⟨⟩, -, script, hscript, rfl⟩ := hfill
  obtain rfl := Except.ok.inj horigin'
  refine ⟨originHex, origin, paymentScript, script, horder, ?_, horigin, hscript, ?_, ?_⟩
  · exact (List.map_congr_left fun c hc => hlower c (hshape.2 c hc)).trans (List.map_id _)
  · rw [hvin, List.map_cons, List.map_map, List.map_map]
    rfl
  · rw [hvout]
    rfl

theorem toTransaction_eq_ok {tx : UapJs.Tx} {txid : Text} {vout : ℤ} {rest : List (Text × ℤ)}
    (hvin : tx.vin.map UapJs.TxIn.outpoint = (txid, vout) :: rest) {T : CTransaction} (h : UapJs.toTransaction tx = .ok T) :
    (∃ txin vin, T.vin = txin :: vin ∧ txidBytes UapJs.errors txid = .ok txin.prevout.hash.bytes ∧
      txin.prevout.n = UapJs.toUint32 vout) ∧
    T.vout = tx.vout.map fun out => ⟨Int64.ofInt out.value, out.scriptPubKey⟩ := by
  obtain ⟨first, others, heq, hfirst, -⟩ := List.map_eq_cons_iff.mp hvin
  simp only [UapJs.toTransaction, UapJs.Tx.normalize, heq, List.map_cons, List.mapM_cons, bind_eq_ok, pure_eq_ok] at h
  obtain ⟨vins, ⟨txin, htxin, vin, -, rfl⟩, rfl⟩ := h
  refine ⟨⟨txin, vin, rfl, ?_⟩, rfl⟩
  rw [UapJs.toTxIn, bind_eq_ok] at htxin
  obtain ⟨hash, hhash, htxin⟩ := htxin
  split_ifs at htxin with hlen
  obtain rfl := Except.ok.inj htxin
  have htxid : first.txid = txid := congrArg Prod.fst hfirst
  have hvout : first.vout = vout := congrArg Prod.snd hfirst
  exact ⟨htxid ▸ hhash, by rw [hvout]⟩

theorem planFill_eq_ok {order : Order} {takerPubkey : Option Bytes}
    {feeRate : ℚ} (h : planFill (some order) position takerUtxos takerPubkey feeRate = .ok plan) :
    fillErrors order takerUtxos feeRate = [] ∧ ∃ tokenValue, plan = ⟨takerUtxos, order.paymentValue,
      fillFee feeRate takerUtxos.length, intToDouble (intToDouble (sumDouble (takerUtxos.map (·.value)) -
        order.paymentValue) - fillFee feeRate takerUtxos.length), feeRate, tokenValue⟩ := by
  unfold planFill at h
  dsimp only at h
  split at h
  · rename_i order' tokenValue horder _
    obtain rfl := Option.some.inj horder
    split at h
    · next herrors => exact ⟨herrors, tokenValue, (Except.ok.inj h).symm⟩
    · cases h
  · cases h

theorem planFill_total {order : Order} {takerPubkey : Option Bytes}
    {feeRate : ℚ} (h : planFill (some order) position takerUtxos takerPubkey feeRate = .ok plan)
    (hnonneg : ∀ u ∈ takerUtxos, 0 ≤ u.value) (hlt : (takerUtxos.map (·.value)).sum < 2 ^ 53) :
    plan.paymentValue + plan.fee + wireValue plan.changeValue = (takerUtxos.map (·.value)).sum := by
  obtain ⟨herrors, tokenValue, rfl⟩ := planFill_eq_ok h
  have hvalues : ∀ x ∈ takerUtxos.map (·.value), 0 ≤ x := by
    intro x hx
    obtain ⟨u, hu, rfl⟩ := List.mem_map.mp hx
    exact hnonneg u hu
  have htotal := sumDouble_eq hvalues hlt
  have hsum : 0 ≤ (takerUtxos.map (·.value)).sum := List.sum_nonneg hvalues
  have hfee : recommendedMinTxFee ≤ fillFee feeRate takerUtxos.length := UapJs.fee_pos _ _
  have hmin : recommendedMinTxFee = 1000000 := rfl
  have hdust : defaultDustLimit = 1000000 := rfl
  have hhard : defaultHardDustLimit = 100000 := rfl
  unfold fillErrors at herrors
  dsimp only at herrors
  rw [htotal] at herrors
  generalize (takerUtxos.map (·.value)).sum = total at *
  generalize fillFee feeRate takerUtxos.length = fee at *
  simp only [List.append_eq_nil_iff, ite_eq_right_iff, reduceCtorEq, imp_false] at herrors
  obtain ⟨⟨henough, hpayment⟩, hchange⟩ := herrors
  have hneeded : order.paymentValue + fee ≤ total := (intToDouble_le hsum hlt).mp (not_lt.mp henough)
  rw [intToDouble_of_lt (n := order.paymentValue + fee) (by omega), intToDouble_of_lt (by omega)] at hchange
  unfold FillPlan.changeValue
  dsimp only
  rw [htotal, intToDouble_of_lt (n := total - order.paymentValue) (by omega), intToDouble_of_lt (by omega)]
  split_ifs with hback
  · rw [wireValue_of_lt (by omega) (by omega)]
    omega
  · rw [show wireValue 0 = 0 by decide]
    omega

namespace FillSample
open Consensus

def takerKey : Bytes := beBytes 33 0x02c6047f9441ed7d6d3045406e95c07cd85c778e4b8cef3ca7abac09b95c709ee5

def makerSig : Bytes :=
  beBytes 70 0x304402202ad3ca772a0f5bb04f4e2ff594cd4a8da6b8e7c7d781dece9cda96ecb0385540022037b19a50c030d9f6710dfaceea1fcaf0b8ff1aa9bcdb2fc91a6ca47ccac73fa3

def takerSig : Bytes :=
  beBytes 70 0x30440220364d39e3ce8f4f0edfe13be0b040b7089cecfaa0655cda3ccc84caa6d7852d4602206172c29c8df9406dde6734bd20db9d12948bbca4c01cd288d01fe4e0b4431eb7

def deceivedSig : Bytes :=
  beBytes 70 0x3044022072225ec5526355f10a8f2b0b64dde2339e5154bca037cf674212141c0118c1e902203c9bc67560a61eb33568a41b78812cede7dcc9e9e1f8c3a500c35102bfccb93d

def takerHash : Bytes := beBytes 32 0xb0ba4c62beb3287082abda30b55947e1be79b7a8ad65186c120eed16a3d55660

def signatures : List (Bytes × Bytes × Bytes) :=
  [(mintKey, beBytes 32 0xc4f5262761a369282e8287f46b81e8de4d591d19a5e2a86151cd4144587bf0bb, makerSig),
    (takerKey, takerHash, takerSig),
    (takerKey, beBytes 32 0x429d7ef8034175f0597ca4aa9dc1dd751b9ab3bef6c9ddcb44f39c10545c8381, deceivedSig)]

def crypto : Crypto := Crypto.recorded signatures

def node : Node := regTestNode signatures 0

def coinbase : CTransaction where
  nVersion := 1
  vin := [⟨⟨Uint256.zero, 0xffffffff⟩, pushInt64 1 ++ [op0], CTxIn.sequenceFinal, []⟩]
  vout := [⟨100000000000, uapScript ⟨mintKey, 10, [], true⟩⟩, ⟨100000000, buildP2PKHScript crypto takerKey⟩]
  nLockTime := 0

def nonces : List UInt32 :=
  [0, 0, 2, 0, 0, 4, 3, 4, 3, 0, 2, 0, 0, 0, 0, 0, 2, 1, 2, 5, 0, 0, 0, 0, 2, 0, 2, 1, 1, 0, 0, 1, 0, 1, 5, 2, 1, 0,
    0, 0, 0, 0, 1, 2, 1, 2, 3, 0, 0, 0, 0, 3, 2, 3, 1, 0, 0, 3, 0]

def blocks : List CBlock := minedBlocks crypto coinbase 0 nonces

def state : ChainState :=
  ⟨blocks.map fun block => crypto.blockIndex block.toCBlockHeader,
    CCoinsView.setCoins ∅ (crypto.txid coinbase) (CCoins.fromTx coinbase 1)⟩

def order : Order where
  txid := displayHash (crypto.txid coinbase)
  vout := 0
  origin := some (hexEncode (uapOriginFromOutpoint crypto ⟨crypto.txid coinbase, 0⟩))
  multiplier := 10
  paymentValue := 50000000
  paymentScript := hexEncode (p2pkhScript (beBytes 20 0x751e76e8199196d454941c45d1b3a323f1433bd6))
  scriptSig := hexEncode (pushData (makerSig ++ [0x83]))

def relay : Relay where
  getRawTx _ := .ok (hexEncode (coinbase.serialize false))
  broadcast _ := .ok []

def secp : UapJs.Secp where
  signSync hash _ := if hash.bytes = takerHash then takerSig else deceivedSig
  getPublicKey _ := takerKey

def reported (value : ℤ) : List Utxo := [⟨order.txid, 1, value, none⟩]

def fill? (value : ℤ) : Option (FillPlan × FillTx × Text × CTransaction) := do
  let plan ← (planFill (some order) (some 100000000000) (reported value) (some takerKey) 1000).toOption
  let (built, txid) ← (publishFill crypto relay secp plan [] order (some 100000000000) (reported value)).toOption
  let T ← (UapJs.toTransaction built.tx).toOption
  return (plan, built, txid, T)

def txs : List CTransaction := (regTestGenesis crypto).vtx ++ coinbase :: (List.range' 2 59).map emptyCoinbase

theorem txids_nodup : (txs.map fun tx => leNat (crypto.txid tx).bytes).Nodup := by
  decide +kernel

example : txs.length = 61 := by decide +kernel

theorem txid_injOn {tx tx' : CTransaction} (htx : tx ∈ txs) (htx' : tx' ∈ txs) (h : crypto.txid tx = crypto.txid tx') :
    tx = tx' :=
  List.inj_on_of_nodup_map txids_nodup htx htx' (by rw [h])

theorem mem_txs {tx : CTransaction} (h : tx ∈ (blocks.map MempoolEvent.connectTip).flatMap MempoolEvent.txs) :
    tx ∈ txs := by
  rw [List.flatMap_map, List.mem_flatMap] at h
  obtain ⟨block, hblock, htx⟩ := h
  exact mem_minedBlocks hblock htx

theorem run_blocks : ∃ stored,
    run (NodeState.step node) .start (blocks.map .connectTip) = ⟨state, stored, []⟩ := by
  have haccept : acceptBlocks node ⟨[], ∅⟩ (blocks ++ []) = .ok state := by
    refine acceptBlocks_mined signatures 0 0 nonces [] ?_ (by decide) ?_ ?_
    · exact ⟨rfl, by decide +kernel, rfl, rfl, by decide +kernel, by decide +kernel, by decide +kernel, 1001 * coin,
        by decide, by decide +kernel⟩
    · rw [isGenesis_regTest]
      decide +kernel
    · intro n hn hlt htxid
      have hmem : emptyCoinbase n ∈ txs := List.mem_append_right _
        (List.mem_cons_of_mem _ (List.mem_map_of_mem (List.mem_range'_1.mpr ⟨hn, hlt⟩)))
      have heq := txid_injOn hmem (List.mem_append_right _ List.mem_cons_self) htxid
      have hlen : 1 = 2 := congrArg (fun tx => tx.vout.length) heq
      omega
  rw [List.append_nil] at haccept
  exact run_connectTips (connectBlocks_of_acceptBlocks haccept) []

theorem fill?_eq_some {value : ℤ} {plan : FillPlan} {built : FillTx} {txid : Text} {T : CTransaction}
    (h : fill? value = some (plan, built, txid, T)) :
    planFill (some order) (some 100000000000) (reported value) (some takerKey) 1000 = .ok plan ∧
    publishFill crypto relay secp plan [] order (some 100000000000) (reported value) = .ok (built, txid) ∧
    UapJs.toTransaction built.tx = .ok T := by
  simp only [fill?, Option.bind_eq_bind, Option.bind_eq_some_iff, toOption_eq_some, Option.pure_def,
    Option.some.injEq, Prod.mk.injEq] at h
  obtain ⟨plan', hplan, ⟨built', txid'⟩, hpublish, T', hT, rfl, rfl, rfl, rfl⟩ := h
  exact ⟨hplan, hpublish, hT⟩

/-- The node's answer to the fill, what the taker puts in and gets back, and what the plan has said it costs. -/
def outcome? (value : ℤ) : Option (Except Reject Unit × ℤ × ℤ × ℤ) :=
  (fill? value).map fun f =>
    ((acceptToMemoryPool node openPolicy state.chain state.chain.length state.coins [] f.2.2.2).1,
      takerIn (memPoolView crypto [] state.coins) f.2.2.2,
      changeTo (buildP2PKHScript crypto takerKey) f.2.2.2, f.1.paymentValue + f.1.fee)

theorem outcome?_eq_some {value input change cost : ℤ} {answer : Except Reject Unit}
    (h : outcome? value = some (answer, input, change, cost)) :
    ∃ plan built txid T, fill? value = some (plan, built, txid, T) ∧
      (acceptToMemoryPool node openPolicy state.chain state.chain.length state.coins [] T).1 = answer ∧
      takerIn (memPoolView crypto [] state.coins) T = input ∧
      changeTo (buildP2PKHScript crypto takerKey) T = change ∧ plan.paymentValue + plan.fee = cost := by
  simp only [outcome?, Option.map_eq_some_iff, Prod.mk.injEq] at h
  obtain ⟨⟨plan, built, txid, T⟩, hfill, h⟩ := h
  exact ⟨plan, built, txid, T, hfill, h⟩

end FillSample

open FillSample

end Whippet.Web
