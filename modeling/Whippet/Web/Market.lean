import Whippet.Web.Mint

/-! Filling an order in the browser wallet: the check of the position against the bytes of its transaction, the plan,
and the transaction that is signed and broadcast. All but the taker's key comes from the relay. -/
namespace Whippet.Web
open Lib Primitives Ports
open Indexer (Text)
open Ports.UapJs (PaymentInput feeFor estimateTxSize defaultDustLimit defaultHardDustLimit)

structure Order where
  txid : Text
  vout : ℤ
  origin : Option Text
  multiplier : ℤ
  paymentValue : ℤ
  paymentScript : Text
  scriptSig : Text
  deriving DecidableEq, Repr

/-- What the relay answers to the two requests of a fill. -/
structure Relay where
  getRawTx : Text → Except String Text
  broadcast : Text → Except String Text

structure VerifiedPosition where
  value : ℤ
  scriptPubKey : Bytes
  multiplier : ℤ
  origin : Text
  pubkey : Text
  deriving DecidableEq, Repr

def verificationFailed (reason : String) : String := "Position verification failed: " ++ reason

def outputAt? (tx : UapJs.Tx) (n : ℤ) : Option PortTxOut := if 0 ≤ n then tx.vout[n.toNat]? else none

def positionOrigin (crypto : Crypto) (order : Order) (parsed : Script.UapOutput) : Except String Bytes :=
  if parsed.isMint then UapJs.deriveOrigin crypto order.txid order.vout else .ok parsed.origin

/-- `verifyPosition`, with the value of the position that the relay reports. -/
def verifyPosition (crypto : Crypto) (relay : Relay) (order : Order) (positionValue : Option ℤ) :
    Except String VerifiedPosition := do
  let rawHex ← relay.getRawTx order.txid
  let raw ← UapJs.hexToBytes rawHex
  let actualTxid := UapJs.txidFromBytes crypto raw
  failIf (actualTxid ≠ order.txid)
    (verificationFailed ("the relay served transaction bytes that hash to " ++ String.ofList actualTxid ++
      ", not the order's txid " ++ String.ofList order.txid ++
      ". Refusing to trust anything else this relay says about this position."))
  let tx ← (UapJs.deserializeTx raw).mapError fun message =>
    verificationFailed ("could not parse the (hash-verified) transaction " ++ String.ofList order.txid ++ ": " ++ message)
  let output ← orFail
    (verificationFailed ("transaction " ++ String.ofList order.txid ++ " has no output " ++ toString order.vout ++
      ", but the order claims to be selling it."))
    (outputAt? tx order.vout)
  let parsed ← orFail
    (verificationFailed (String.ofList order.txid ++ ":" ++ toString order.vout ++
      " is not a UAP mint or transfer covenant on chain. Refusing to fill an order against it."))
    (UapJs.parseUapScript? output.scriptPubKey)
  let origin ← positionOrigin crypto order parsed
  let actualOrigin := hexEncode origin
  failIf (order.origin.map (·.map Char.toLower) ≠ some actualOrigin)
    (verificationFailed ("order claims origin " ++ String.ofList (order.origin.getD "undefined".toList) ++
      ", but the position's real scriptPubKey carries " ++ String.ofList actualOrigin ++
      ". Refusing to fill -- this relay cannot be trusted about this order."))
  failIf (order.multiplier ≠ parsed.multiplier)
    (verificationFailed ("order claims multiplier " ++ toString order.multiplier ++
      ", but the position's real scriptPubKey carries " ++ toString parsed.multiplier ++
      ". Refusing to fill -- this relay cannot be trusted about this order."))
  failIf (positionValue.any (· ≠ output.value))
    (verificationFailed ("the relay reported this position as worth " ++ toString (positionValue.getD 0) ++
      " satoshis, but its real, on-chain value is " ++ toString output.value ++
      " satoshis. Refusing to fill -- building against the relay's figure would either burn the difference to fees " ++
      "(if it under-reports) or fail at the node (if it over-reports)."))
  return ⟨output.value, output.scriptPubKey, parsed.multiplier, actualOrigin, hexEncode parsed.pubkey⟩

structure FillPlan where
  takerInputs : List Utxo
  paymentValue : ℤ
  fee : ℤ
  change : ℤ
  feeRate : ℚ
  tokenValue : ℤ
  deriving DecidableEq, Repr

def fillFee (feeRate : ℚ) (nTakerInputs : ℕ) : ℤ := feeFor (estimateTxSize (1 + nTakerInputs) 3) feeRate

def fillErrors (order : Order) (takerUtxos : List Utxo) (feeRate : ℚ) : List String :=
  let totalUtxoValue := sumDouble (takerUtxos.map (·.value))
  let totalNeeded := intToDouble (order.paymentValue + fillFee feeRate takerUtxos.length)
  let change := intToDouble (totalUtxoValue - totalNeeded)
  (if totalUtxoValue < totalNeeded then
    ["Insufficient funds: need " ++ toString totalNeeded ++ " sats for payment + fee, have " ++ toString totalUtxoValue ++
      " sats. Shortfall: " ++ toString (intToDouble (totalNeeded - totalUtxoValue)) ++ " sats"] else []) ++
  (if order.paymentValue < defaultHardDustLimit then
    ["Payment value " ++ toString order.paymentValue ++ " sats is below dust limit " ++ toString defaultHardDustLimit ++
      " sats"] else []) ++
  (if totalUtxoValue ≥ totalNeeded ∧ change > 0 ∧ change < defaultDustLimit then
    ["Transaction produces dust change (" ++ toString change ++ " sats). Need more input or different payment amount."]
    else [])

/-- `planFill`. -/
def planFill (order : Option Order) (position : Option ℤ) (takerUtxos : List Utxo) (takerPubkey : Option Bytes)
    (feeRate : ℚ) : Except (List String) FillPlan :=
  let missing := (if order = none then ["Order is required"] else []) ++
    (if position = none then ["Position is required"] else []) ++
    (if takerUtxos = [] then ["Taker UTXOs required"] else []) ++
    (if takerPubkey = none then ["Taker pubkey required"] else [])
  match missing, order, position with
  | [], some order, some tokenValue =>
    match fillErrors order takerUtxos feeRate with
    | [] =>
      let fee := fillFee feeRate takerUtxos.length
      let change := intToDouble (intToDouble (sumDouble (takerUtxos.map (·.value)) - order.paymentValue) - fee)
      .ok ⟨takerUtxos, order.paymentValue, fee, change, feeRate, tokenValue⟩
    | errors => .error errors
  | missing, _, _ => .error missing

structure FillTx where
  rawHex : Text
  tx : UapJs.Tx

def FillPlan.changeValue (plan : FillPlan) : ℤ := if plan.change ≥ defaultDustLimit then plan.change else 0

/-- `buildFillTx`, with the value of the position that the token output gets. -/
def buildFillTx (crypto : Crypto) (secp : UapJs.Secp) (plan : FillPlan) (privKey pubKey : Bytes) (order : Order)
    (positionValue : ℤ) (takerUtxos : List Utxo) : Except String FillTx := do
  let originHex ← orFail
    ("this order does not publish its position's lineage origin, so the " ++
      "token output cannot be built: the relay must serve `origin` on every " ++
      "order (a taker cannot derive it -- see fillOrder in uap-js)")
    (order.origin.filter fun t => t.length = 64 ∧ t.all fun c => c ∈ "0123456789abcdef".toList)
  let origin ← UapJs.hexToBytes originHex
  let scriptSig ← UapJs.hexToBytes order.scriptSig
  let paymentScript ← UapJs.hexToBytes order.paymentScript
  let tx ← UapJs.fillOrder crypto
    { scriptSig := scriptSig
      txid := order.txid
      vout := order.vout
      paymentScript := some paymentScript
      paymentValue := order.paymentValue
      origin := some origin }
    { toPubkey := pubKey
      multiplier := order.multiplier
      tokenValue := positionValue
      takerInputs := takerUtxos.map fun u => (u.txid, u.vout)
      changeScript := buildP2PKHScript crypto pubKey
      changeValue := plan.changeValue }
  let tx ← UapJs.signInputs crypto secp
    (takerUtxos.map fun u => ⟨u.txid, u.vout, u.value, buildP2PKHScript crypto pubKey, privKey, pubKey⟩) 1 tx
  let raw ← UapJs.serializeTx tx
  return ⟨hexEncode raw, tx⟩

/-- `publishFill`: what is broadcast, and the txid that the relay answers with. -/
def publishFill (crypto : Crypto) (relay : Relay) (secp : UapJs.Secp) (plan : FillPlan) (privKey : Bytes) (order : Order)
    (position : Option ℤ) (takerUtxos : List Utxo) : Except String (FillTx × Text) := do
  let verified ← verifyPosition crypto relay order position
  let built ← buildFillTx crypto secp plan privKey (secp.getPublicKey privKey) order verified.value takerUtxos
  let txid ← relay.broadcast built.rawHex
  return (built, txid)

end Whippet.Web
