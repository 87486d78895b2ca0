import Whippet.Ports.Covenant
import Whippet.Ports.Deserialize
import Whippet.Script.CovenantSpend
import Whippet.Script.ScriptCode

/-! Sell orders: `signMakerOrder` of the wallet library, and `fillOrder` of the library and of the Go package. -/
namespace Whippet.Ports
open Lib Primitives

/-- `SIGHASH_SINGLE | SIGHASH_ANYONECANPAY`. -/
def orderHashType : UInt32 := 0x83

namespace UapJs

structure Secp where
  signSync : Uint256 → Bytes → Bytes
  getPublicKey : Bytes → Bytes

/-- `signSpend`: one push of the signature and its hash type. -/
def signSpend (crypto : Crypto) (secp : Secp) (scriptCode privKey : Bytes) (tx : Tx) (nIn : ℕ) (hashType : UInt32) :
    Except String Bytes := do
  let hash ← signatureHash crypto scriptCode tx nIn hashType
  pushData (secp.signSync hash privKey ++ [hashType.toUInt8])

structure MakerOpts where
  txid : List Char
  vout : ℤ
  scriptCode : Bytes
  privKey : Bytes
  paymentScript : Bytes
  paymentValue : ℤ

/-- A maker order. `signMakerOrder` leaves the lineage and the script of the position to others. -/
structure MakerOrder where
  scriptSig : Bytes
  txid : List Char
  vout : ℤ
  paymentScript : Option Bytes
  paymentValue : ℤ
  scriptCode : Option Bytes := none
  origin : Option Bytes := none
  deriving DecidableEq, Repr

def makerTx (opts : MakerOpts) : Tx where
  version := some 1
  locktime := some 0
  vin := [⟨opts.txid, opts.vout, some [], some 0xffffffff⟩]
  vout := [⟨opts.paymentValue, opts.paymentScript⟩]

def signMakerOrder (crypto : Crypto) (secp : Secp) (opts : MakerOpts) : Except String MakerOrder := do
  let scriptSig ← signSpend crypto secp opts.scriptCode opts.privKey (makerTx opts) 0 orderHashType
  return {
    scriptSig := scriptSig
    txid := opts.txid
    vout := opts.vout
    paymentScript := some opts.paymentScript
    paymentValue := opts.paymentValue }

def deriveOrigin (crypto : Crypto) (txid : List Char) (vout : ℤ) : Except String Bytes := do
  let txidBytes ← hexToBytes txid
  failIf (txidBytes.length ≠ 32) ("txid must be exactly 32 bytes, got " ++ toString txidBytes.length)
  failIf (vout < 0 ∨ vout > 0xffffffff) "vout must be an unsigned 32-bit integer"
  return (crypto.sha256 (txidBytes.reverse ++ encodeUint32LE (toUint32 vout))).bytes

/-- `originForSpend`: the lineage that the outputs of a spend carry. -/
def originForSpend (crypto : Crypto) (scriptCode : Option Bytes) (txid : List Char) (vout : ℤ) : Except String Bytes :=
  let code := scriptCode.getD []
  if code.length < 1 then .error "originForSpend needs the scriptCode of the position being spent"
  else if code.getLastD 0 = 0xb5 then deriveOrigin crypto txid vout
  else if code.getLastD 0 = 0xba then
    if code.length < 34 ∨ code[code.length - 34]? ≠ some 0x20 then
      .error "transfer scriptCode does not carry a 32-byte origin push"
    else .ok (slice code (code.length - 33) (code.length - 1))
  else .error "scriptCode is not a UAP mint or transfer covenant"

structure FillOpts where
  toPubkey : Bytes
  multiplier : ℤ
  tokenValue : ℤ
  takerInputs : List (List Char × ℤ)
  changeScript : Bytes
  changeValue : ℤ

def fillOrder (crypto : Crypto) (order : MakerOrder) (opts : FillOpts) : Except String Tx := do
  let origin ←
    match order.origin with
    | some origin => .ok origin
    | none => originForSpend crypto order.scriptCode order.txid order.vout
  failIf (origin.length ≠ 32) "fillOrder needs the order's 32-byte lineage origin"
  let script ← buildTransferScript opts.toPubkey opts.multiplier origin
  return {
    version := some 1
    locktime := some 0
    vin := ⟨order.txid, order.vout, some order.scriptSig, some 0xffffffff⟩ ::
      opts.takerInputs.map fun inp => ⟨inp.1, inp.2, some [], some 0xffffffff⟩
    vout := (order.paymentScript.map fun script => ⟨order.paymentValue, script⟩).toList ++ [⟨opts.tokenValue, script⟩] ++
      if opts.changeValue ≠ 0 then [⟨opts.changeValue, opts.changeScript⟩] else [] }

end UapJs

namespace Uaptx

def pushData (data : Bytes) : Except String Bytes :=
  orFail "uaptx: push too large for this helper" (UapJs.pushData data).toOption

def pushMultiplier (n : ℤ) : Except String Bytes :=
  orFail ("uaptx: multiplier must be an integer in [0, 2147483647], got " ++ toString n) (UapJs.pushMultiplier n).toOption

def buildTransferScript (pubkey : Bytes) (multiplier : ℤ) (origin : Bytes) : Except String Bytes := do
  failIf (origin.length ≠ 32) ("uaptx: origin must be exactly 32 bytes, got " ++ toString origin.length)
  let key ← pushData pubkey
  let mult ← pushMultiplier multiplier
  let org ← pushData origin
  return key ++ mult ++ org ++ [0xba]

structure MakerOrder where
  scriptSig : Bytes
  txid : List Char
  vout : UInt32
  paymentScript : Option Bytes
  paymentValue : ℤ

structure FillOpts where
  toPubkey : Bytes
  multiplier : ℤ
  origin : Bytes
  tokenValue : ℤ
  takerInputs : List (List Char × UInt32)
  changeScript : Bytes
  changeValue : ℤ

def fillOrder (order : MakerOrder) (opts : FillOpts) : Except String PortTx := do
  let script ← buildTransferScript opts.toPubkey opts.multiplier opts.origin
  return {
    version := 1
    locktime := 0
    vin := ⟨order.txid, order.vout, order.scriptSig, none, 0xffffffff⟩ ::
      opts.takerInputs.map fun inp => ⟨inp.1, inp.2, [], none, 0xffffffff⟩
    vout := (order.paymentScript.map fun script => ⟨order.paymentValue, script⟩).toList ++ [⟨opts.tokenValue, script⟩] ++
      if opts.changeValue ≠ 0 then [⟨opts.changeValue, opts.changeScript⟩] else [] }

end Uaptx

def UapJs.MakerOrder.toGo (order : UapJs.MakerOrder) : Uaptx.MakerOrder :=
  ⟨order.scriptSig, order.txid, UapJs.toUint32 order.vout, order.paymentScript, order.paymentValue⟩

section
variable {errors : PortErrors} {scriptCode : Bytes}

theorem signaturePreimage_order {tx : PortTx} {vin : PortTxIn} {out : PortTxOut} (hvin : tx.vin[0]? = some vin)
    (hout : tx.vout[0]? = some out) : signaturePreimage errors scriptCode tx 0 orderHashType = (do
      let signed := serializeScriptCode scriptCode
      let input ← serializeTxIn errors ⟨vin.txid, vin.vout, signed.1, some signed.2, vin.sequence⟩
      let output ← serializeTxOut errors out
      return some (encodeUint32LE tx.version ++ [1] ++ input ++ [1] ++ output ++ encodeUint32LE tx.locktime ++
        encodeUint32LE orderHashType)) := by
  have hins : ¬ 0 ≥ tx.vin.length := by
    have := (List.getElem?_eq_some_iff.mp hvin).1
    omega
  have houts : ¬ (orderHashType &&& 0x1f = 3 ∧ 0 ≥ tx.vout.length) := by
    have := (List.getElem?_eq_some_iff.mp hout).1
    omega
  have hinputs : signedInputs (serializeScriptCode scriptCode) tx 0 orderHashType =
      [⟨vin.txid, vin.vout, (serializeScriptCode scriptCode).1, some (serializeScriptCode scriptCode).2, vin.sequence⟩] := by
    have hacp : (orderHashType &&& 0x80 != 0) = true := by decide
    simp [signedInputs, hacp, hvin]
  have houtputs : signedOutputs tx 0 orderHashType = [out] := by
    have hsingle : orderHashType &&& 0x1f = 3 := by decide
    simp [signedOutputs, hsingle, hout]
  rw [signaturePreimage, if_neg hins, if_neg houts]
  simp only [hinputs, houtputs, serializeTx, List.length_singleton, List.mapM_cons, List.mapM_nil]
  rw [encodeVarInt_eq errors (by decide)]
  cases serializeTxIn errors ⟨vin.txid, vin.vout, (serializeScriptCode scriptCode).1,
    some (serializeScriptCode scriptCode).2, vin.sequence⟩ with
  | error e => rfl
  | ok input =>
    cases serializeTxOut errors out with
    | error e => rfl
    | ok output =>
      simp only [pure, Except.pure, ok_bind, List.flatten_cons, List.flatten_nil, List.append_nil]
      rfl

end

/-- What the node hashes for this hash type: the signed input, and the outputs up to its position, of which only
the last is written out. -/
def orderPreimage (version : UInt32) (prevout : COutPoint) (code : Bytes) (sequence : UInt32) (nIn : ℕ) (out : CTxOut)
    (lockTime : UInt32) : Bytes :=
  writeUInt32 version ++ [1] ++ prevout.serialize ++ Script.serializeScriptCode code ++ writeUInt32 sequence ++
    writeCompactSize (nIn + 1) ++ (List.replicate nIn CTxOut.null.serialize).flatten ++ out.serialize ++
    writeUInt32 lockTime ++ writeUInt32 orderHashType

section
variable {code : Bytes} {tx : CTransaction} {nIn : ℕ}

theorem signaturePreimage?_order {txin : CTxIn} {out : CTxOut} (hvin : tx.vin[nIn]? = some txin)
    (hout : tx.vout[nIn]? = some out) : Script.signaturePreimage? code tx nIn orderHashType =
      some (orderPreimage tx.nVersion.toUInt32 txin.prevout code txin.nSequence nIn out tx.nLockTime) := by
  have hins : ¬ nIn ≥ tx.vin.length := not_le.mpr (List.getElem?_eq_some_iff.mp hvin).1
  have houts : ¬ (Script.hashSingle orderHashType = true ∧ nIn ≥ tx.vout.length) :=
    fun h => absurd h.2 (not_le.mpr (List.getElem?_eq_some_iff.mp hout).1)
  have hacp : Script.anyoneCanPay orderHashType = true := by decide
  have hsingle : Script.hashSingle orderHashType = true := by decide
  have hnone : Script.hashNone orderHashType = false := by decide
  have hinput : Script.serializeInput code tx nIn orderHashType 0 =
      txin.prevout.serialize ++ Script.serializeScriptCode code ++ writeUInt32 txin.nSequence := by
    simp [Script.serializeInput, hacp, hvin]
  have hbefore : (List.range nIn).map (Script.serializeOutput tx nIn orderHashType) =
      List.replicate nIn CTxOut.null.serialize := by
    rw [List.eq_replicate_iff]
    refine ⟨by simp, ?_⟩
    intro b hb
    obtain ⟨i, hi, rfl⟩ := List.mem_map.mp hb
    rw [Script.serializeOutput, if_pos ⟨hsingle, (List.mem_range.mp hi).ne⟩]
  have hlast : Script.serializeOutput tx nIn orderHashType nIn = out.serialize := by
    simp [Script.serializeOutput, hout]
  have houtputs : (List.range (nIn + 1)).flatMap (Script.serializeOutput tx nIn orderHashType) =
      (List.replicate nIn CTxOut.null.serialize).flatten ++ out.serialize := by
    rw [List.flatMap_def, List.range_succ, List.map_append, hbefore, List.map_singleton, hlast]
    simp
  have hone : writeCompactSize 1 = [1] := by decide
  rw [Script.signaturePreimage?, if_neg hins, if_neg houts, Script.serializeForSignature]
  simp only [hacp, hnone, hsingle, Bool.false_eq_true, if_true, if_false, List.range_one, List.flatMap_singleton, hinput, houtputs, hone,
    orderPreimage, List.append_assoc]
  rfl

theorem signaturePreimage?_order_eq_some {p : Bytes} (h : Script.signaturePreimage? code tx nIn orderHashType = some p) :
    ∃ txin out, tx.vin[nIn]? = some txin ∧ tx.vout[nIn]? = some out ∧
      p = orderPreimage tx.nVersion.toUInt32 txin.prevout code txin.nSequence nIn out tx.nLockTime := by
  have hins : nIn < tx.vin.length := by
    by_contra hge
    rw [Script.signaturePreimage?, if_pos (not_lt.mp hge)] at h
    cases h
  have houts : nIn < tx.vout.length := by
    by_contra hge
    rw [Script.signaturePreimage?, if_neg (not_le.mpr hins), if_pos ⟨by decide, not_lt.mp hge⟩] at h
    cases h
  refine ⟨tx.vin[nIn], tx.vout[nIn], List.getElem?_eq_getElem hins, List.getElem?_eq_getElem houts, ?_⟩
  rw [signaturePreimage?_order (List.getElem?_eq_getElem hins) (List.getElem?_eq_getElem houts)] at h
  exact (Option.some.inj h).symm

end

theorem outPoint_serialize_append_inj {p q : COutPoint} {x y : Bytes} (h : p.serialize ++ x = q.serialize ++ y) :
    p = q ∧ x = y := by
  obtain ⟨⟨hash, hlen⟩, n⟩ := p
  obtain ⟨⟨hash', hlen'⟩, n'⟩ := q
  simp only [COutPoint.serialize, List.append_assoc] at h
  obtain ⟨hhash, htail⟩ := List.append_inj h (hlen.trans hlen'.symm)
  obtain ⟨hn, hrest⟩ := List.append_inj htail (by simp [writeUInt32])
  have hnat : n.toNat = n'.toNat := leBytes_inj n.toNat_lt n'.toNat_lt hn
  obtain rfl := hhash
  obtain rfl := UInt32.toNat_inj.mp hnat
  exact ⟨rfl, hrest⟩

theorem writeInt64_inj {v w : Int64} (h : writeInt64 v = writeInt64 w) : v = w := by
  have hnat := leBytes_inj v.toUInt64.toNat_lt w.toUInt64.toNat_lt h
  exact congrArg UInt64.toInt64 (UInt64.toNat_inj.mp hnat)

theorem orderPreimage_sizes {v : UInt32} {p : COutPoint} {code : Bytes} {s : UInt32} {n : ℕ} {o : CTxOut} {l : UInt32}
    (hcode : Script.WholeScript code) (hsize : (orderPreimage v p code s n o l).length < 2 ^ 53) :
    code.length < 2 ^ 53 ∧ n + 1 < 2 ^ 53 ∧ o.scriptPubKey.length < 2 ^ 53 := by
  have hnull : CTxOut.null.serialize.length = 9 := by decide
  have hnulls : (List.replicate n CTxOut.null.serialize).flatten.length = n * 9 := by simp [hnull]
  have hout : o.serialize.length = (writeInt64 o.nValue).length + (writeBytes o.scriptPubKey).length := by
    simp [CTxOut.serialize]
  simp only [orderPreimage, Script.serializeScriptCode_whole hcode, List.length_append, hnulls, hout, writeBytes] at hsize
  omega

/-- The bytes for input 0 are not those for another position, and they determine the outpoint, the script and the
output. -/
theorem orderPreimage_inj {v v' : UInt32} {p p' : COutPoint} {code code' : Bytes} {s s' : UInt32} {n : ℕ} {o o' : CTxOut}
    {l l' : UInt32} (hcode : Script.WholeScript code) (hcode' : Script.WholeScript code')
    (hsize : (orderPreimage v p code s 0 o l).length < 2 ^ 53)
    (h : orderPreimage v p code s 0 o l = orderPreimage v' p' code' s' n o' l') :
    n = 0 ∧ p' = p ∧ code' = code ∧ o' = o := by
  obtain ⟨hcodeLt, -, hscriptLt⟩ := orderPreimage_sizes hcode hsize
  obtain ⟨hcodeLt', hn, hscriptLt'⟩ := orderPreimage_sizes hcode' (h ▸ hsize)
  simp only [orderPreimage, Script.serializeScriptCode_whole hcode, Script.serializeScriptCode_whole hcode',
    List.append_assoc] at h
  obtain ⟨-, h⟩ := List.append_inj h (by simp [writeUInt32])
  obtain ⟨-, h⟩ := List.append_inj h rfl
  obtain ⟨hp, h⟩ := outPoint_serialize_append_inj h
  obtain ⟨hscriptCode, h⟩ := writeBytes_append_inj hcodeLt hcodeLt' h
  obtain ⟨-, h⟩ := List.append_inj h (by simp [writeUInt32])
  obtain ⟨hcount, h⟩ := writeCompactSize_append_inj (by omega) hn h
  have hzero : n = 0 := by omega
  rw [hzero] at h
  simp only [List.replicate_zero, List.flatten_nil, List.nil_append, CTxOut.serialize, List.append_assoc] at h
  obtain ⟨hvalue, h⟩ := List.append_inj h (by simp [writeInt64])
  obtain ⟨hscript, -⟩ := writeBytes_append_inj hscriptLt hscriptLt' h
  refine ⟨hzero, hp.symm, hscriptCode.symm, ?_⟩
  cases o
  cases o'
  exact congrArg₂ CTxOut.mk (writeInt64_inj hvalue.symm) hscript.symm

end Whippet.Ports
