import Whippet.Ports.MakerOrder

/-! What a signed sell order lets others do: it moves its own position, and only against the payment it names. -/
namespace Whippet.Ports
open Lib Primitives

section
variable {errors : PortErrors} {scriptCode : Bytes}

theorem signaturePreimage_order_eq_ok {tx : PortTx} {vin : PortTxIn} {out : PortTxOut} (hvin : tx.vin[0]? = some vin)
    (hout : tx.vout[0]? = some out) {q : Option Bytes}
    (h : signaturePreimage errors scriptCode tx 0 orderHashType = .ok q) :
    ∃ hash : Uint256, txidBytes errors vin.txid = .ok hash.bytes ∧ out.scriptPubKey.length < 2 ^ 32 ∧
      (serializeScriptCode scriptCode).2 < 2 ^ 32 ∧
      q = some (orderPreimage tx.version ⟨hash, vin.vout⟩ scriptCode vin.sequence 0
        ⟨Int64.ofInt out.value, out.scriptPubKey⟩ tx.locktime) := by
  simp only [signaturePreimage_order hvin hout, serializeTxIn, serializeTxOut, bind_eq_ok, pure_eq_ok,
    Option.getD_some] at h
  obtain ⟨input, ⟨hash, hhash, codeSize, hcodeSize, hinput⟩, output, ⟨scriptSize, hscriptSize, houtput⟩, hq⟩ := h
  have h32 := txidBytes_length hhash
  obtain ⟨hcode, hcodeBytes⟩ := encodeVarInt_eq_ok hcodeSize
  obtain ⟨hscript, hscriptBytes⟩ := encodeVarInt_eq_ok hscriptSize
  have hone : writeCompactSize 1 = [1] := by decide
  refine ⟨⟨hash, h32⟩, hhash, hscript, hcode, ?_⟩
  rw [← hq, ← hinput, ← houtput, hcodeBytes, hscriptBytes, encodeInt64LE_eq]
  simp only [orderPreimage, COutPoint.serialize, serializeScriptCode_eq scriptCode, CTxOut.serialize, writeBytes,
    List.append_assoc, List.replicate_zero, List.flatten_nil, List.nil_append, Nat.zero_add, hone]
  rfl

theorem signaturePreimage_order_ok {tx : PortTx} {vin : PortTxIn} {out : PortTxOut} (hvin : tx.vin[0]? = some vin)
    (hout : tx.vout[0]? = some out) {hash : Uint256} (hhash : txidBytes errors vin.txid = .ok hash.bytes)
    (hscript : out.scriptPubKey.length < 2 ^ 32) (hcode : (serializeScriptCode scriptCode).2 < 2 ^ 32) :
    signaturePreimage errors scriptCode tx 0 orderHashType =
      .ok (some (orderPreimage tx.version ⟨hash, vin.vout⟩ scriptCode vin.sequence 0
        ⟨Int64.ofInt out.value, out.scriptPubKey⟩ tx.locktime)) := by
  have hok : ∃ q, signaturePreimage errors scriptCode tx 0 orderHashType = .ok q := by
    simp only [signaturePreimage_order hvin hout, serializeTxIn, hhash, Option.getD_some, encodeVarInt_eq errors hcode,
      serializeTxOut, encodeVarInt_eq errors hscript, ok_bind]
    exact ⟨_, rfl⟩
  obtain ⟨q, hq⟩ := hok
  obtain ⟨hash', hhash', -, -, hpre⟩ := signaturePreimage_order_eq_ok hvin hout hq
  have hbytes : hash'.bytes = hash.bytes := Except.ok.inj (hhash'.symm.trans hhash)
  obtain rfl : hash' = hash := by
    cases hash'
    cases hash
    exact Uint256.mk.injEq _ _ _ _ ▸ hbytes
  rw [hq, hpre]

end

variable {b : Bytes}

theorem txidBytes_of_hexToBytes {errors : PortErrors} {txid : List Char}
    (h : errors.hexToBytes txid = .ok b) :
    txidBytes errors txid = if b.length ≠ 32 then .error (errors.txidSize b.length) else .ok b.reverse := by
  rw [txidBytes, h, ok_bind]

theorem UapJs.hexToBytes_of_hexDecode? {text : List Char} (h : hexDecode? text = some b) :
    UapJs.hexToBytes text = .ok b := by
  induction text using UapJs.hexToBytes.induct generalizing b with
  | case1 => exact congrArg Except.ok (Option.some.inj h)
  | case2 c => cases h
  | case3 c d cs ih =>
    simp only [hexDecode?, Option.bind_eq_bind, Option.bind_eq_some_iff] at h
    obtain ⟨hi, hhi, lo, hlo, bs, hbs, hb⟩ := h
    rw [UapJs.hexToBytes, ih hbs, UapJs.parseByte, hhi, hlo]
    exact congrArg Except.ok (Option.some.inj hb)

theorem UapJs.pushData_eq_ok {data : Bytes} (h : UapJs.pushData data = .ok b) :
    data.length ≤ 0xffff ∧ b = Script.pushData data := by
  have hlen : data.length ≤ 0xffff := by
    by_contra hlong
    rw [UapJs.pushData, if_neg (by omega), if_neg (by omega), if_neg hlong] at h
    cases h
  rw [UapJs.pushData_eq hlen] at h
  exact ⟨hlen, (Except.ok.inj h).symm⟩

namespace UapJs

def makerPreimage (opts : MakerOpts) (hash : Uint256) : Bytes :=
  orderPreimage 1 ⟨hash, toUint32 opts.vout⟩ opts.scriptCode 0xffffffff 0
    ⟨Int64.ofInt opts.paymentValue, opts.paymentScript⟩ 0

def makerSig (crypto : Crypto) (secp : Secp) (opts : MakerOpts) (hash : Uint256) : Bytes :=
  secp.signSync (crypto.hash256 (makerPreimage opts hash)) opts.privKey ++ [0x83]

def MakerOrder.attach (order : MakerOrder) (scriptCode origin : Option Bytes) : MakerOrder :=
  { order with scriptCode := scriptCode, origin := origin }

section
variable {crypto : Crypto} {secp : Secp} {opts : MakerOpts} {order : MakerOrder}

theorem signMakerOrder_eq_ok (h : signMakerOrder crypto secp opts = .ok order) :
    ∃ hash : Uint256, txidBytes UapJs.errors opts.txid = .ok hash.bytes ∧ opts.paymentScript.length < 2 ^ 32 ∧
      UapJs.signaturePreimage opts.scriptCode (makerTx opts) 0 orderHashType = .ok (some (makerPreimage opts hash)) ∧
      (makerSig crypto secp opts hash).length ≤ 0xffff ∧
      order = {
        scriptSig := Script.pushData (makerSig crypto secp opts hash)
        txid := opts.txid
        vout := opts.vout
        paymentScript := some opts.paymentScript
        paymentValue := opts.paymentValue } := by
  simp only [signMakerOrder, signSpend, bind_eq_ok, pure_eq_ok] at h
  obtain ⟨scriptSig, ⟨digest, hdigest, hpush⟩, horder⟩ := h
  cases hpre : UapJs.signaturePreimage opts.scriptCode (makerTx opts) 0 orderHashType with
  | error e =>
    rw [UapJs.signatureHash, hpre] at hdigest
    cases hdigest
  | ok q =>
    rw [UapJs.signatureHash, hpre] at hdigest
    obtain ⟨hash, hhash, hscript, -, hq⟩ := signaturePreimage_order_eq_ok rfl rfl hpre
    have hq' : q = some (makerPreimage opts hash) := hq
    have hdigest' : digest = crypto.hash256 (makerPreimage opts hash) := by
      rw [hq'] at hdigest
      exact (Except.ok.inj hdigest).symm
    rw [hdigest'] at hpush
    obtain ⟨hlen, hsig⟩ := pushData_eq_ok hpush
    refine ⟨hash, hhash, hscript, by rw [hq'], hlen, ?_⟩
    rw [← horder, hsig]
    rfl

theorem isMinimalPush_makerSig {hash : Uint256} (h : (makerSig crypto secp opts hash).length ≤ 0xffff) :
    Script.IsMinimalPush (Script.pushData (makerSig crypto secp opts hash)) (makerSig crypto secp opts hash) := by
  have hsmall : ¬ Script.HasSmallIntOpcode (makerSig crypto secp opts hash) := by
    intro hs
    have hlen := hs.1
    have hnil : secp.signSync (crypto.hash256 (makerPreimage opts hash)) opts.privKey = [] := by
      simpa [makerSig] using hlen
    rw [makerSig, hnil] at hs
    revert hs
    unfold Script.HasSmallIntOpcode
    decide
  have hget := Script.getOp_pushData [] (lt_of_le_of_lt h (show 0xffff < 2 ^ 32 by decide))
  rw [List.append_nil] at hget
  exact ⟨_, hget, rfl, Or.inl ⟨Script.pushOpcode_le _, rfl, Script.checkMinimalPush_pushOpcode hsmall⟩⟩

end

/-- Double SHA-256 is injective on the preimages, where the constant one counts as the hash of none, and a signature
verifies only for the hash it was made for. -/
structure SignsOnce (crypto : Crypto) (secp : Secp) (preimages : Set (Option Bytes)) : Prop where
  hash_inj : Set.InjOn (finishHash crypto) preimages
  verifies : ∀ pubkey digest digest' privKey,
    crypto.verify pubkey digest' (secp.signSync digest privKey) = true → digest' = digest

/-- The order is what the maker signed for a canonical covenant. -/
structure Signed (crypto : Crypto) (secp : Secp) (preimages : Set (Option Bytes)) (opts : MakerOpts)
    (order : MakerOrder) : Prop where
  canonical : ∃ f, Script.parseUapOutputScript? opts.scriptCode = some f
  signed : signMakerOrder crypto secp opts = .ok order
  preimage : ∀ q, UapJs.signaturePreimage opts.scriptCode (makerTx opts) 0 orderHashType = .ok q → q ∈ preimages

/-- The node accepts an input that spends the canonical covenant `script` with the `scriptSig` of the order. -/
structure Fills (crypto : Crypto) (preimages : Set (Option Bytes)) (order : MakerOrder)
    (checker : Script.TransactionSignatureChecker) (script : Bytes) : Prop where
  canonical : ∃ f, Script.parseUapOutputScript? script = some f
  input : ∃ txin, checker.txTo.vin[checker.nIn]? = some txin ∧ txin.scriptSig = order.scriptSig
  accepted : ∃ flags witness, Script.verifyScript crypto flags checker order.scriptSig script witness = .ok ()
  preimage : Script.signaturePreimage? (Script.findAndDelete script order.scriptSig) checker.txTo checker.nIn
    orderHashType ∈ preimages

/-- The order offers the position at `prevout` for the output `out`. -/
structure MakerOrder.Offers (order : MakerOrder) (prevout : COutPoint) (out : CTxOut) : Prop where
  txid : txidBytes UapJs.errors order.txid = .ok prevout.hash.bytes
  vout : prevout.n = toUint32 order.vout
  paymentValue : out.nValue = Int64.ofInt order.paymentValue
  paymentScript : order.paymentScript = some out.scriptPubKey

theorem MakerOrder.Offers.transfer {order order' : MakerOrder} {prevout prevout' : COutPoint} {out out' : CTxOut}
    (h : order.Offers prevout out) (h' : order'.Offers prevout out) (hoffer : order.Offers prevout' out') :
    order'.Offers prevout' out' where
  txid := by rw [h'.txid, ← h.txid, hoffer.txid]
  vout := by rw [hoffer.vout, ← h.vout, h'.vout]
  paymentValue := by rw [hoffer.paymentValue, ← h.paymentValue, h'.paymentValue]
  paymentScript := by rw [h'.paymentScript, ← h.paymentScript, hoffer.paymentScript]

section
variable {crypto : Crypto} {secp : Secp} {preimages : Set (Option Bytes)} {opts : MakerOpts} {order : MakerOrder}
  {checker : Script.TransactionSignatureChecker} {script : Bytes}

variable {f : Script.UapOutput}

theorem makerPreimage_length (hparse : Script.parseUapOutputScript? opts.scriptCode = some f)
    (hscript : opts.paymentScript.length < 2 ^ 32) (hash : Uint256) : (makerPreimage opts hash).length < 2 ^ 53 := by
  obtain ⟨hf, hcode⟩ := Script.parseUapOutputScript?_eq_some.mp hparse
  have hcodeLen := (Script.uapScript_length hf).2
  rw [← hcode, Script.maxScriptSize] at hcodeLen
  have hsize (n : ℕ) : (writeCompactSize n).length ≤ 9 := by
    unfold writeCompactSize
    split_ifs <;> simp
  have hcodeSize := hsize opts.scriptCode.length
  have hscriptSize := hsize opts.paymentScript.length
  have hone := hsize (0 + 1)
  simp only [makerPreimage, orderPreimage, Script.serializeScriptCode_whole (hcode.symm ▸ Script.wholeScript_uapScript hf),
    COutPoint.serialize, CTxOut.serialize, writeBytes, writeUInt32, writeInt64, List.length_append, leBytes_length,
    hash.size_eq, List.replicate_zero, List.flatten_nil, List.length_nil, List.length_singleton]
  omega

theorem signatureHash_of_checkSig {hash : Uint256} {pubkey code : Bytes} (hcrypto : SignsOnce crypto secp preimages)
    (h : checker.checkSig crypto (makerSig crypto secp opts hash) pubkey code .base = true) :
    finishHash crypto (Script.signaturePreimage? code checker.txTo checker.nIn orderHashType) =
      finishHash crypto (some (makerPreimage opts hash)) := by
  unfold Script.TransactionSignatureChecker.checkSig at h
  split_ifs at h
  rw [makerSig, List.getLast?_concat, List.dropLast_concat] at h
  rw [finishHash_eq _ _ _ _ crypto checker.amount]
  exact hcrypto.verifies _ _ _ _ h

theorem Fills.offers (hcrypto : SignsOnce crypto secp preimages) (hsigned : Signed crypto secp preimages opts order)
    (h : Fills crypto preimages order checker script) :
    checker.nIn = 0 ∧ ∃ txin out, checker.txTo.vin[0]? = some txin ∧ txin.scriptSig = order.scriptSig ∧
      checker.txTo.vout[0]? = some out ∧ order.Offers txin.prevout out := by
  obtain ⟨f, hcanon⟩ := hsigned.canonical
  obtain ⟨hash, hhash, hscript, hpre, hlen, rfl⟩ := signMakerOrder_eq_ok hsigned.signed
  obtain ⟨hf, hcode⟩ := Script.parseUapOutputScript?_eq_some.mp hcanon
  obtain ⟨g, hparse⟩ := h.canonical
  obtain ⟨hg, rfl⟩ := Script.parseUapOutputScript?_eq_some.mp hparse
  obtain ⟨txin, htxin, hscriptSig⟩ := h.input
  obtain ⟨flags, witness, haccepted⟩ := h.accepted
  have hrules := Script.covenantRules_of_verifyScript hg (isMinimalPush_makerSig hlen) htxin haccepted
  have hhashed := hcrypto.hash_inj h.preimage (hsigned.preimage _ hpre)
    (signatureHash_of_checkSig hcrypto hrules.signature)
  obtain ⟨txin', out, htxin', hout, hequal⟩ := signaturePreimage?_order_eq_some hhashed
  have hpush : Script.IsInstr (Script.pushData (makerSig crypto secp opts hash)) :=
    Script.isInstr_pushData (lt_of_le_of_lt hlen (by decide))
  obtain ⟨hzero, hprevout, -, hpaid⟩ := orderPreimage_inj (hcode.symm ▸ Script.wholeScript_uapScript hf)
    ((Script.wholeScript_uapScript hg).findAndDelete hpush) (makerPreimage_length hcanon hscript hash) hequal
  obtain rfl : txin' = txin := Option.some.inj (htxin'.symm.trans htxin)
  rw [hzero] at htxin hout
  refine ⟨hzero, txin', out, htxin, hscriptSig, hout, ?_⟩
  rw [hprevout, hpaid]
  exact ⟨hhash, rfl, rfl, rfl⟩

theorem serializeScriptCode_size (hparse : Script.parseUapOutputScript? opts.scriptCode = some f) :
    (serializeScriptCode opts.scriptCode).2 < 2 ^ 32 := by
  obtain ⟨hf, hcode⟩ := Script.parseUapOutputScript?_eq_some.mp hparse
  have hlen := (Script.uapScript_length hf).2
  rw [← hcode, Script.maxScriptSize] at hlen
  have hle : (serializeScriptCode opts.scriptCode).2 ≤ opts.scriptCode.length := Nat.sub_le _ _
  omega

variable {fill : FillOpts} {tx : Tx}

theorem fillOrder_eq_ok (h : fillOrder crypto order fill = .ok tx) :
    ∃ ins outs, tx = {
      version := some 1
      locktime := some 0
      vin := ⟨order.txid, order.vout, some order.scriptSig, some 0xffffffff⟩ :: ins
      vout := (order.paymentScript.map fun script => ⟨order.paymentValue, script⟩).toList ++ outs } := by
  unfold fillOrder at h
  cases horigin : order.origin with
  | some origin =>
    simp only [horigin, bind_eq_ok, pure_eq_ok, List.append_assoc] at h
    obtain ⟨_, _, _, _, script, _, htx⟩ := h
    exact ⟨_, _, htx.symm⟩
  | none =>
    simp only [horigin, bind_eq_ok, pure_eq_ok, List.append_assoc] at h
    obtain ⟨_, _, _, _, script, _, htx⟩ := h
    exact ⟨_, _, htx.symm⟩

theorem fillOrder_preimage (h : signMakerOrder crypto secp opts = .ok order) {code origin : Option Bytes}
    (hfill : fillOrder crypto (order.attach code origin) fill = .ok tx) :
    UapJs.signaturePreimage opts.scriptCode tx 0 orderHashType =
      UapJs.signaturePreimage opts.scriptCode (makerTx opts) 0 orderHashType := by
  obtain ⟨hash, -, -, -, -, rfl⟩ := signMakerOrder_eq_ok h
  obtain ⟨ins, outs, rfl⟩ := fillOrder_eq_ok hfill
  rw [UapJs.signaturePreimage, UapJs.signaturePreimage, signaturePreimage_order rfl rfl, signaturePreimage_order rfl rfl]
  rfl

theorem signaturePreimage?_fillOrder {hash : Uint256} (hhash : txidBytes UapJs.errors order.txid = .ok hash.bytes)
    (h : signMakerOrder crypto secp opts = .ok order) {code origin : Option Bytes}
    (hfill : fillOrder crypto (order.attach code origin) fill = .ok tx) {txTo : CTransaction}
    (hto : UapJs.toTransaction tx = .ok txTo) :
    Script.signaturePreimage? opts.scriptCode txTo 0 orderHashType = some (makerPreimage opts hash) := by
  obtain ⟨hash', -, -, -, -, rfl⟩ := signMakerOrder_eq_ok h
  obtain ⟨ins, outs, rfl⟩ := fillOrder_eq_ok hfill
  simp only [toTransaction, bind_eq_ok, pure_eq_ok] at hto
  obtain ⟨vin, hvin, rfl⟩ := hto
  simp only [Tx.normalize, List.map_cons, List.mapM_cons, bind_eq_ok, pure_eq_ok] at hvin
  obtain ⟨txin, htxin, rest, -, rfl⟩ := hvin
  have hfirst : txin = ⟨⟨hash, toUint32 opts.vout⟩,
      Script.pushData (makerSig crypto secp opts hash'), 0xffffffff, []⟩ := by
    simp only [toTxIn, MakerOrder.attach] at htxin
    rw [hhash, ok_bind, dif_pos hash.size_eq] at htxin
    exact (Except.ok.inj htxin).symm
  rw [signaturePreimage?_order rfl rfl, hfirst]
  rfl

theorem goFillOrder_preimage (hparse : Script.parseUapOutputScript? opts.scriptCode = some f)
    (h : signMakerOrder crypto secp opts = .ok order) (hhex : (hexDecode? order.txid).isSome) {fill : Uaptx.FillOpts}
    {tx : PortTx} (hfill : Uaptx.fillOrder order.toGo fill = .ok tx) :
    Uaptx.signaturePreimage opts.scriptCode tx 0 orderHashType =
      UapJs.signaturePreimage opts.scriptCode (makerTx opts) 0 orderHashType := by
  obtain ⟨hash, hhash, hscript, hpre, -, rfl⟩ := signMakerOrder_eq_ok h
  obtain ⟨b, hb⟩ := Option.isSome_iff_exists.mp hhex
  have hgo : txidBytes Uaptx.errors opts.txid = .ok hash.bytes := by
    have hread : Uaptx.errors.hexToBytes opts.txid = .ok b := orFail_eq_ok.mpr hb
    rw [txidBytes_of_hexToBytes (show UapJs.errors.hexToBytes opts.txid = .ok b from hexToBytes_of_hexDecode? hb)]
      at hhash
    rw [txidBytes_of_hexToBytes hread]
    split_ifs at hhash ⊢ with hsize
    exact hhash
  simp only [Uaptx.fillOrder, bind_eq_ok, pure_eq_ok] at hfill
  obtain ⟨script, -, rfl⟩ := hfill
  rw [Uaptx.signaturePreimage, hpre, signaturePreimage_order_ok rfl rfl hgo hscript (serializeScriptCode_size hparse)]
  rfl

end

/-- A filled order pays its maker. Whoever spends a covenant with the `scriptSig` of a maker order spends the maker's
own position, at input 0, and pays at output 0 what the order names; so a transaction fills one order at most. In turn
whatever a taker adds to the order leaves the hash that the maker signed. -/
theorem maker_payment_guarantee (crypto : Crypto) (secp : Secp) (preimages : Set (Option Bytes))
    (hcrypto : SignsOnce crypto secp preimages) (opts : MakerOpts) (order : MakerOrder)
    (horder : Signed crypto secp preimages opts order) :
    (∀ checker script, Fills crypto preimages order checker script →
      checker.nIn = 0 ∧ ∃ txin out, checker.txTo.vin[0]? = some txin ∧ checker.txTo.vout[0]? = some out ∧
        order.Offers txin.prevout out ∧
        (-2 ^ 63 ≤ order.paymentValue ∧ order.paymentValue < 2 ^ 63 → out.nValue.toInt = order.paymentValue)) ∧
    (∀ checker script, Fills crypto preimages order checker script →
      ∀ opts' order', Signed crypto secp preimages opts' order' → ∀ checker' script',
        checker'.txTo = checker.txTo → Fills crypto preimages order' checker' script' →
          checker'.nIn = checker.nIn ∧ order'.scriptSig = order.scriptSig ∧
            ∀ prevout out, order'.Offers prevout out ↔ order.Offers prevout out) ∧
    ∃ digest, UapJs.signatureHash crypto opts.scriptCode (makerTx opts) 0 orderHashType = .ok digest ∧
      (∀ code origin fill tx, fillOrder crypto (order.attach code origin) fill = .ok tx →
        UapJs.signatureHash crypto opts.scriptCode tx 0 orderHashType = .ok digest ∧
        ∀ txTo, UapJs.toTransaction tx = .ok txTo → ∀ amount,
          Script.signatureHash crypto opts.scriptCode txTo 0 orderHashType amount .base = digest) ∧
      ∀ fill tx, (hexDecode? order.txid).isSome → Uaptx.fillOrder order.toGo fill = .ok tx →
        Uaptx.signatureHash crypto opts.scriptCode tx 0 orderHashType = .ok digest := by
  obtain ⟨f, hcanon⟩ := horder.canonical
  obtain ⟨hash, hhash, -, hpre, -, hfields⟩ := signMakerOrder_eq_ok horder.signed
  have htxid : txidBytes UapJs.errors order.txid = .ok hash.bytes := by
    rw [hfields]
    exact hhash
  refine ⟨?_, ?_, crypto.hash256 (makerPreimage opts hash), ?_, ?_, ?_⟩
  · intro checker script hfills
    obtain ⟨hzero, txin, out, htxin, -, hout, hoffers⟩ := hfills.offers hcrypto horder
    refine ⟨hzero, txin, out, htxin, hout, hoffers, ?_⟩
    rintro ⟨hlo, hhi⟩
    rw [hoffers.paymentValue, Int64.toInt_ofInt_of_le hlo hhi]
  · intro checker script hfills opts' order' horder' checker' script' htx hfills'
    obtain ⟨hzero, txin, out, htxin, hsig, hout, hoffers⟩ := hfills.offers hcrypto horder
    obtain ⟨hzero', txin', out', htxin', hsig', hout', hoffers'⟩ := hfills'.offers hcrypto horder'
    rw [htx] at htxin' hout'
    obtain rfl : txin' = txin := Option.some.inj (htxin'.symm.trans htxin)
    obtain rfl : out' = out := Option.some.inj (hout'.symm.trans hout)
    refine ⟨hzero'.trans hzero.symm, hsig'.symm.trans hsig, ?_⟩
    intro prevout paid
    exact ⟨hoffers'.transfer hoffers, hoffers.transfer hoffers'⟩
  · rw [UapJs.signatureHash, hpre]
    rfl
  · intro code origin fill tx hfill
    refine ⟨?_, ?_⟩
    · rw [UapJs.signatureHash, fillOrder_preimage horder.signed hfill, hpre]
      rfl
    · intro txTo hto amount
      rw [← finishHash_eq, signaturePreimage?_fillOrder htxid horder.signed hfill hto]
      rfl
  · intro fill tx hhex hfill
    rw [Uaptx.signatureHash, goFillOrder_preimage hcanon horder.signed hhex hfill, hpre]
    rfl

def sampleOpts : MakerOpts where
  txid := List.replicate 64 'a'
  vout := 0
  scriptCode := Script.uapScript ⟨Script.mintKey, 40, [], true⟩
  privKey := beBytes 32 1
  paymentScript := [0x76, 0xa9, 0x14] ++ List.replicate 20 0 ++ [0x88, 0xac]
  paymentValue := 500

def sampleHash : Uint256 := .ofByte 0xaa

def sampleDigest : Bytes := beBytes 32 0x6176f3a7bd01e0906ce3b3db16f23a3bc6ff8b9a1f7ca649870da6592c4d4efe

def sampleSig : Bytes :=
  beBytes 71 0x3045022100d3e4bb705d20bc90e158756379bc0e30e0708c1fd178992a449d800e93d751db022057c1e18169cb67db82b285c4d14647c2f9902aa77f13eba8ee42964254950c1d

def sampleCrypto : Crypto := Crypto.recorded [(Script.mintKey, sampleDigest, sampleSig)]

def sampleSecp : Secp where
  signSync digest _ := if digest.bytes = sampleDigest then sampleSig else []
  getPublicKey _ := Script.mintKey

def sampleOrder : MakerOrder where
  scriptSig := Script.pushData (sampleSig ++ [0x83])
  txid := sampleOpts.txid
  vout := 0
  paymentScript := some sampleOpts.paymentScript
  paymentValue := 500

def sampleFilled : Script.TransactionSignatureChecker where
  txTo := {
    nVersion := 1
    vin := [⟨⟨sampleHash, 0⟩, sampleOrder.scriptSig, 0xffffffff, []⟩,
      ⟨⟨⟨List.replicate 32 0xbb, rfl⟩, 1⟩, [], 0xffffffff, []⟩]
    vout := [⟨500, sampleOpts.paymentScript⟩,
      ⟨100000000000, Script.uapScript
        ⟨Script.mintKey, 40, beBytes 32 0xd60f3f6d3f69ddc7993fa92fbf93350c7b95c2ee25e8f80223865154857d5f25, false⟩⟩,
      ⟨99000000, sampleOpts.paymentScript⟩]
    nLockTime := 0 }
  nIn := 0
  amount := 100000000000
  vPrevScriptPubKeys := some [sampleOpts.scriptCode, sampleOpts.paymentScript]
  vPrevAmounts := some [100000000000, 100000000]

theorem sampleSignsOnce : SignsOnce sampleCrypto sampleSecp {some (makerPreimage sampleOpts sampleHash)} where
  hash_inj := Set.injOn_singleton _ _
  verifies := by
    intro pubkey digest digest' privKey h
    obtain ⟨bytes, hsize⟩ := digest
    obtain ⟨bytes', hsize'⟩ := digest'
    simp only [sampleCrypto, Crypto.recorded, sampleSecp, List.mem_singleton, Prod.mk.injEq, decide_eq_true_eq] at h
    split_ifs at h with hdigest
    · obtain rfl : bytes' = bytes := h.2.1.trans hdigest.symm
      rfl
    · have hne : [] ≠ sampleSig := by decide +kernel
      exact absurd h.2.2 hne

theorem sampleSigned :
    Signed sampleCrypto sampleSecp {some (makerPreimage sampleOpts sampleHash)} sampleOpts sampleOrder where
  canonical := ⟨⟨Script.mintKey, 40, [], true⟩, by decide +kernel⟩
  signed := by decide +kernel
  preimage := by
    intro q hq
    have hpre : UapJs.signaturePreimage sampleOpts.scriptCode (makerTx sampleOpts) 0 orderHashType =
        .ok (some (makerPreimage sampleOpts sampleHash)) := by decide +kernel
    exact (Except.ok.inj (hq.symm.trans hpre))

theorem sampleFills : Fills sampleCrypto {some (makerPreimage sampleOpts sampleHash)} sampleOrder sampleFilled
    sampleOpts.scriptCode where
  canonical := ⟨⟨Script.mintKey, 40, [], true⟩, by decide +kernel⟩
  input := ⟨_, rfl, rfl⟩
  accepted := by
    have hsig : Script.IsMinimalPush (Script.pushData (sampleSig ++ [0x83])) (sampleSig ++ [0x83]) :=
      ⟨⟨72, sampleSig ++ [0x83], []⟩, by decide +kernel, rfl, Or.inl (by decide +kernel)⟩
    refine ⟨{ Script.standardScriptVerifyFlags with uapMint := true }, [],
      (Script.verifyScript_covenant _ sampleFilled _ _ _ _ ⟨Script.mintKey, 40, [], true⟩ _ (Or.inr rfl)
        (by decide +kernel) hsig rfl).mpr ⟨by decide +kernel, by decide +kernel, by decide +kernel, by decide +kernel,
          by decide +kernel, by decide +kernel, ?_, by decide +kernel⟩⟩
    intro _ i hi hne prevScript hprev
    have hone : i = 1 := by
      have htwo : i < 2 := hi
      have hzero : i ≠ 0 := hne
      omega
    rw [hone] at hprev
    obtain rfl : sampleOpts.paymentScript = prevScript := Option.some.inj hprev
    decide +kernel
  preimage := by decide +kernel

theorem maker_payment_guarantee_filled :
    sampleFilled.nIn = 0 ∧ ∃ txin out, sampleFilled.txTo.vin[0]? = some txin ∧
      sampleFilled.txTo.vout[0]? = some out ∧ sampleOrder.Offers txin.prevout out ∧
      (-2 ^ 63 ≤ sampleOrder.paymentValue ∧ sampleOrder.paymentValue < 2 ^ 63 →
        out.nValue.toInt = sampleOrder.paymentValue) :=
  (maker_payment_guarantee sampleCrypto sampleSecp {some (makerPreimage sampleOpts sampleHash)} sampleSignsOnce
    sampleOpts sampleOrder sampleSigned).1 sampleFilled sampleOpts.scriptCode sampleFills

end UapJs
end Whippet.Ports
