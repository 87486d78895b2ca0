import Whippet.Web.Mint

/-! Token transfers in the browser wallet: the plan with its checks, and the transaction that is signed. -/
namespace Whippet.Web
open Lib Primitives Ports
open Indexer (Text)
open Ports.UapJs (PaymentInput feeFor defaultDustLimit defaultHardDustLimit)

def maxMultiplier : ℤ := 2147483647

def maxSafeSats : ℤ := UapJs.maxSafeInteger

/-- A key or a script as it comes off the wire. -/
inductive ByteField
  | missing
  | text (t : Text)
  | bytes (b : Bytes)
  | other
  deriving DecidableEq, Repr

def ByteField.given : ByteField → Bool
  | .missing => false
  | .text t => t ≠ []
  | .bytes _ | .other => true

def trim (t : Text) : Text :=
  ((t.dropWhile UapJs.isWhitespace).reverse.dropWhile UapJs.isWhitespace).reverse

def isHex (t : Text) : Bool := t ≠ [] ∧ t.all fun c => (hexValue? c).isSome

def ByteField.bytes? : ByteField → Option Bytes
  | .bytes b => some b
  | .text t =>
    if isHex (trim t) ∧ (trim t).length % 2 = 0 then (UapJs.hexToBytes ((trim t).map Char.toLower)).toOption else none
  | .missing | .other => none

/-- `normalizePubKey`, with the test that the curve module makes of a point. -/
def normalizePubKey (isPoint : Bytes → Bool) (value : ByteField) : Option Bytes :=
  value.bytes?.filter fun b =>
    ((b.length = 33 ∧ (b.headD 0 = 0x02 ∨ b.headD 0 = 0x03)) ∨ (b.length = 65 ∧ b.headD 0 = 0x04)) ∧ isPoint b

/-- `validatePositionScript`: the script itself, if it is the covenant that is expected. -/
def validatePositionScript (scriptHex : ByteField) (expectedPubKey : Option Bytes) (expectedMultiplier : Option ℤ)
    (expectIsMint : Bool) : Except String Bytes := do
  failIf (scriptHex = .missing ∨ scriptHex = .other) "Position script_hex must be a hex string or bytes"
  let script ← orFail "Position script_hex is not an even-length hex string" scriptHex.bytes?
  let covenant ← UapWeb.parseUapCovenant script
  let parsed ← orFail ("Position script_hex is not a canonically encoded UAP covenant " ++
    "(<pubkey> <multiplier> OP_MINT for mints, or <pubkey> <multiplier> <origin32> OP_MINT_TRANSFER for transfers). " ++
    "Signing over it would authorise a script this wallet cannot verify.") covenant
  failIf (parsed.isMint ≠ expectIsMint)
    (if parsed.isMint then "Position script_hex is a fresh mint script but the position is not marked as a mint"
      else "Position script_hex is a transfer covenant but the position is marked as a fresh mint")
  failIf (expectedPubKey.any (parsed.pubkey ≠ ·))
    ("Position script_hex is a covenant for a different public key than the position records; " ++ "refusing to sign over it")
  failIf (expectedMultiplier.any (parsed.multiplier ≠ ·))
    ("Position script_hex carries multiplier " ++ toString parsed.multiplier ++ ", but the position records " ++
      toString (expectedMultiplier.getD 0) ++ "; refusing to sign over it")
  return script

def estimateTransferSize (nInputs nCovenantOutputs nP2PKHOutputs : ℕ) : ℕ :=
  10 + nInputs * 150 + nCovenantOutputs * 49 + nP2PKHOutputs * 34

/-- `virtualBalanceOf`, for display. -/
def virtualBalanceOf (valueSats multiplier : ℤ) : ℚ := toDouble (toDouble (valueSats / UapJs.coin) * multiplier)

/-- A position as the indexer reports it. A number that is not an integer is `none`. -/
structure PositionRecord where
  txid : Text
  vout : Option ℤ
  value : Option ℤ
  multiplier : Option ℤ
  pubkey : ByteField
  isMint : Bool
  scriptHex : ByteField := .missing
  origin : Option Text := none
  spent : Bool := false
  valueVerified : Bool := false
  deriving DecidableEq, Repr

structure Funding where
  selected : List Utxo
  total : ℤ
  fee : ℤ
  change : ℤ
  deriving DecidableEq, Repr

def transferFee (feeRate : ℚ) (nCovenantOutputs nFunding : ℕ) : ℤ :=
  feeFor (estimateTransferSize (1 + nFunding) nCovenantOutputs 1) feeRate

def fundingLoop (feeRate : ℚ) (nCovenantOutputs : ℕ) : List Utxo → ℤ → List Utxo → Except String Funding
  | selected, total, [] =>
    .error ("Insufficient WHIP to pay the transfer fee: need about " ++
      toString (transferFee feeRate nCovenantOutputs selected.length) ++ " satoshis, have " ++ toString total ++ " satoshis")
  | selected, total, utxo :: sorted =>
    let selected := selected ++ [utxo]
    let total := intToDouble (total + utxo.value)
    let feeWithChange := transferFee feeRate nCovenantOutputs selected.length
    if total ≥ feeWithChange then
      let change := intToDouble (total - feeWithChange)
      -- Change that is not worth an output becomes fee.
      .ok (if change < defaultDustLimit then ⟨selected, total, total, 0⟩ else ⟨selected, total, feeWithChange, change⟩)
    else fundingLoop feeRate nCovenantOutputs selected total sorted

/-- `selectFunding`. An entry without the right fields is `none`. -/
def selectFunding (fundingUtxos : List (Option Utxo)) (feeRate : ℚ) (nCovenantOutputs : ℕ) : Except String Funding :=
  let usable := (fundingUtxos.filterMap id).filter fun u => 0 < u.value
  if usable = [] then
    .error "No usable WHIP UTXOs to pay the fee with (each needs txid, vout and a positive integer value)"
  else fundingLoop feeRate nCovenantOutputs [] 0 (usable.insertionSort fun a b => a.value ≤ b.value)

inductive TransferOutput
  | tokenRecipient (value : ℤ) (pubKey : Bytes) (multiplier : ℤ)
  | tokenChange (value : ℤ) (pubKey : Bytes) (multiplier : ℤ)
  | whipChange (value : ℤ) (pubKey : Bytes)
  deriving DecidableEq, Repr

namespace TransferOutput

def value : TransferOutput → ℤ
  | tokenRecipient value _ _ | tokenChange value _ _ | whipChange value _ => value

def isToken : TransferOutput → Bool
  | tokenRecipient .. | tokenChange .. => true
  | whipChange .. => false

end TransferOutput

/-- The input of `planTransfer`. A rate that is not finite is `none`. -/
structure TransferInput where
  position : Option PositionRecord
  ownPubKey : ByteField
  toPubKey : ByteField
  toAddress : Option Text := none
  network : Text := "mainnet".toList
  amountSats : Option ℤ
  fundingUtxos : List (Option Utxo)
  feeRate : Option ℚ

structure TransferPlan where
  position : PositionRecord
  multiplier : ℤ
  warnings : List FieldError
  toPubKey : Bytes
  ownPubKey : Bytes
  amountSats : ℤ
  remainderSats : ℤ
  tokenValueIn : ℤ
  tokenValueOut : ℤ
  virtualBalanceIn : ℚ
  virtualBalanceOut : ℚ
  virtualBalanceLost : ℚ
  fundingInputs : List Utxo
  fundingTotal : ℤ
  fee : ℤ
  change : ℤ
  feeRate : ℚ
  outputs : List TransferOutput
  deriving DecidableEq, Repr

def versionsOf? (network : Text) : Option (UInt8 × UInt8) :=
  if network = "mainnet".toList then some (0x49, 0x16)
  else if network = "testnet".toList then some (0x71, 0xc4)
  else if network = "regtest".toList then some (0x49, 0xc4)
  else none

namespace PositionRecord

def positionValue? (p : PositionRecord) : Option ℤ := p.value.filter fun v => 0 < v ∧ v ≤ maxSafeSats

def multiplier? (p : PositionRecord) : Option ℤ := p.multiplier.filter fun m => 0 ≤ m ∧ m ≤ maxMultiplier

def owner? (isPoint : Bytes → Bool) (p : PositionRecord) : Option Bytes :=
  if p.pubkey.given then normalizePubKey isPoint p.pubkey else none

def valueErrors (p : PositionRecord) : List FieldError :=
  match p.value with
  | some v =>
    if v ≤ 0 then [⟨"position", "Position value must be a positive integer number of satoshis"⟩]
    else if v > maxSafeSats then
      [⟨"position", "Position value of " ++ toString v ++ " satoshis is larger than " ++ toString maxSafeSats ++ ", " ++
        "which this wallet cannot split without losing or inventing satoshis. It refuses to try."⟩]
    else []
  | none => [⟨"position", "Position value must be a positive integer number of satoshis"⟩]

def ownerErrors (isPoint : Bytes → Bool) (p : PositionRecord) : List FieldError :=
  if !p.pubkey.given then
    [⟨"position", "Position does not record which public key it is addressed to, " ++
      "so this wallet cannot verify that it owns it"⟩]
  else if (normalizePubKey isPoint p.pubkey).isNone then [⟨"position", "Position has a malformed recipient pubkey"⟩]
  else []

def scriptErrors (isPoint : Bytes → Bool) (p : PositionRecord) : List FieldError :=
  if !p.scriptHex.given then
    if p.isMint then
      [⟨"position", "This is a freshly minted position and this wallet cannot derive the origin for spending it " ++
        "without knowing the outpoint. Provide the script_hex explicitly, or transfer it once from a wallet that " ++
        "knows the outpoint."⟩]
    else []
  else
    match validatePositionScript p.scriptHex (p.owner? isPoint) p.multiplier? p.isMint with
    | .error message => [⟨"position", message⟩]
    | .ok _ => []

def errors (isPoint : Bytes → Bool) (p : PositionRecord) : List FieldError :=
  (if isHex p.txid ∧ p.txid.length = 64 then []
    else [⟨"position", "Position txid is not a 64-character hex string"⟩]) ++
  (if p.vout.any (0 ≤ ·) then [] else [⟨"position", "Position vout must be a non-negative integer"⟩]) ++
  p.valueErrors ++
  (if p.multiplier?.isSome then []
    else [⟨"position", "Position multiplier must be an integer in [0, " ++ toString maxMultiplier ++ "]"⟩]) ++
  (if p.spent then [⟨"position", "That position has already been spent"⟩] else []) ++
  p.ownerErrors isPoint ++ p.scriptErrors isPoint

end PositionRecord

namespace TransferInput
variable (crypto : Crypto) (isPoint : Bytes → Bool)

def positionErrors (input : TransferInput) : List FieldError :=
  match input.position with
  | none => [⟨"position", "No position selected to send from"⟩]
  | some p => p.errors isPoint

def own? (input : TransferInput) : Option Bytes := normalizePubKey isPoint input.ownPubKey

def toKey? (input : TransferInput) : Option Bytes := normalizePubKey isPoint input.toPubKey

def ownershipErrors (input : TransferInput) : List FieldError :=
  match input.own? isPoint with
  | none => [⟨"ownPubKey", "Wallet public key is missing or malformed"⟩]
  | some own =>
    if (input.position.bind (·.owner? isPoint)).any (· ≠ own) then
      [⟨"position", "This position is addressed to a different public key; this wallet cannot spend it"⟩]
    else []

def recipientErrors (input : TransferInput) : List FieldError :=
  if (input.toKey? isPoint).isSome then []
  else [⟨"toPubKey",
    "Recipient public key must be 33 bytes (starting 02/03) or 65 bytes (starting 04), in hex"⟩]

def addressErrors (input : TransferInput) : List FieldError :=
  let trimmed := trim (input.toAddress.getD [])
  if trimmed = [] then []
  else
    match base58checkDecode crypto trimmed with
    | .error _ => [⟨"toAddress", "Recipient address is not a valid Whippet address"⟩]
    | .ok (version, payload) =>
      match versionsOf? input.network with
      | none => [⟨"network", "Unknown network: " ++ String.ofList input.network⟩]
      | some (pubkeyAddress, scriptAddress) =>
        if version = scriptAddress then
          [⟨"toAddress", "P2SH addresses are not supported by this wallet; ask for a regular " ++
            "(pay-to-pubkey-hash) address"⟩]
        else if version ≠ pubkeyAddress then
          [⟨"toAddress", "That address is not a " ++ String.ofList input.network ++ " address"⟩]
        else if (input.toKey? isPoint).any (crypto.hash160 · ≠ payload) then
          [⟨"toAddress", "The recipient public key does not match that address (hash160 mismatch). " ++
            "Do not send: one of the two belongs to someone else."⟩]
        else []

def splitErrors (amountSats positionValue : ℤ) : List FieldError :=
  if amountSats > positionValue then
    [⟨"amountSats", "Amount " ++ toString amountSats ++ " satoshis exceeds the position's value of " ++
      toString positionValue ++ " satoshis"⟩]
  else
    let remainderSats := intToDouble (positionValue - amountSats)
    (if amountSats < defaultHardDustLimit then
      [⟨"amountSats", "Amount " ++ toString amountSats ++ " satoshis is below the dust limit of " ++
        toString defaultHardDustLimit ++ " satoshis"⟩] else []) ++
    (if remainderSats > 0 ∧ remainderSats < defaultHardDustLimit then
      [⟨"amountSats", "Sending this much would leave a dust remainder of " ++ toString remainderSats ++
        " satoshis in your position. " ++ "Send at most " ++ toString (intToDouble (positionValue - defaultHardDustLimit)) ++
        " satoshis, or send the whole position."⟩] else [])

def amountErrors (input : TransferInput) : List FieldError :=
  match input.amountSats with
  | none => [⟨"amountSats", "Amount must be a positive whole number of satoshis"⟩]
  | some amountSats =>
    if amountSats ≤ 0 then [⟨"amountSats", "Amount must be a positive whole number of satoshis"⟩]
    else if amountSats > maxSafeSats then
      [⟨"amountSats", "Amount of " ++ toString amountSats ++ " satoshis is larger than " ++ toString maxSafeSats ++ ", " ++
        "which this wallet cannot compute a remainder against without losing or inventing satoshis."⟩]
    else
      match input.position.bind (·.positionValue?) with
      | none => []
      | some positionValue => splitErrors amountSats positionValue

def fundingErrors (input : TransferInput) : List FieldError :=
  (if input.feeRate.any (0 < ·) then []
    else [⟨"feeRate", "Fee rate must be a positive number of satoshis per kB"⟩]) ++
  (if input.fundingUtxos = [] then
    [⟨"fundingUtxos", "A token transfer needs an ordinary WHIP input to pay the fee, so the tokens themselves are " ++
      "not spent on it. " ++ "This wallet has no spendable WHIP UTXOs."⟩] else [])

def errors (input : TransferInput) : List FieldError :=
  input.positionErrors isPoint ++ input.ownershipErrors isPoint ++ input.recipientErrors isPoint ++
    input.addressErrors crypto isPoint ++ input.amountErrors ++ input.fundingErrors

end TransferInput

def valueWarnings (p : PositionRecord) (positionValue : ℤ) : List FieldError :=
  if p.valueVerified then []
  else [⟨"position", "This position's value of " ++ toString positionValue ++ " satoshis is as reported by the indexer and " ++
    "cannot be verified here. If the real output holds more than that, the difference will be " ++
    "paid to miners as fee instead of moving with your tokens."⟩]

def plannedOutputs (own toKey : Bytes) (multiplier amountSats remainderSats change : ℤ) : List TransferOutput :=
  [.tokenRecipient amountSats toKey multiplier] ++
    (if remainderSats > 0 then [.tokenChange remainderSats own multiplier] else []) ++
    (if change > 0 then [.whipChange change own] else [])

def transferPlan (p : PositionRecord) (own toKey : Bytes) (multiplier positionValue amountSats : ℤ) (feeRate : ℚ)
    (funding : Funding) : TransferPlan :=
  let remainderSats := intToDouble (positionValue - amountSats)
  let outputs := plannedOutputs own toKey multiplier amountSats remainderSats funding.change
  let tokens := outputs.filter (·.isToken)
  let covenantSatsOut := sumDouble (tokens.map (·.value))
  { position := p
    multiplier := multiplier
    warnings := valueWarnings p positionValue
    toPubKey := toKey
    ownPubKey := own
    amountSats := amountSats
    remainderSats := remainderSats
    tokenValueIn := positionValue
    tokenValueOut := covenantSatsOut
    virtualBalanceIn := virtualBalanceOf positionValue multiplier
    virtualBalanceOut := tokens.foldl (fun sum o => toDouble (sum + virtualBalanceOf o.value multiplier)) 0
    virtualBalanceLost := virtualBalanceOf (intToDouble (positionValue - covenantSatsOut)) multiplier
    fundingInputs := funding.selected
    fundingTotal := funding.total
    fee := funding.fee
    change := funding.change
    feeRate := feeRate
    outputs := outputs }

/-- `planTransfer`. Without errors every field is there. -/
def planTransfer (crypto : Crypto) (isPoint : Bytes → Bool) (input : TransferInput) :
    Except (List FieldError) TransferPlan :=
  match input.errors crypto isPoint, input.position, input.position.bind (·.positionValue?),
    input.position.bind (·.multiplier?), input.own? isPoint, input.toKey? isPoint, input.amountSats, input.feeRate with
  | [], some p, some positionValue, some multiplier, some own, some toKey, some amountSats, some feeRate =>
    let nCovenantOutputs := if intToDouble (positionValue - amountSats) > 0 then 2 else 1
    match selectFunding input.fundingUtxos feeRate nCovenantOutputs with
    | .error message => .error [⟨"fundingUtxos", message⟩]
    | .ok funding => .ok (transferPlan p own toKey multiplier positionValue amountSats feeRate funding)
  | errors, _, _, _, _, _, _, _ => .error errors

/-- `positionScriptOf`: the script that the position's signature commits to. -/
def positionScriptOf (position : PositionRecord) (ownPubKey : Bytes) (multiplier : ℤ) : Except String Bytes :=
  if position.scriptHex.given then
    match validatePositionScript position.scriptHex (some ownPubKey) (some multiplier) position.isMint with
    | .error message => .error ("refusing to sign over this position's script: " ++ message)
    | .ok script => .ok script
  else if position.isMint then UapJs.buildMintScript ownPubKey multiplier
  else
    match position.origin with
    | some origin =>
      if origin.length = 64 ∧ (origin.all fun c => c ∈ "0123456789abcdef".toList) then do
        let bytes ← UapJs.hexToBytes origin
        UapJs.buildTransferScript ownPubKey multiplier bytes
      else .error originMissing
    | none => .error originMissing
where
  originMissing : String :=
    "cannot reconstruct a transfer position's script: it needs the 32-byte " ++
      "lineage origin, which is not derivable from the outpoint and is not " ++
      "present on this position (supply script_hex or origin)"

def TransferOutput.encode (crypto : Crypto) (origin : Bytes) : TransferOutput → Except String PortTxOut
  | .whipChange value pubKey => .ok ⟨value, buildP2PKHScript crypto pubKey⟩
  | .tokenRecipient value pubKey multiplier | .tokenChange value pubKey multiplier => do
    let script ← UapJs.buildTransferScript pubKey multiplier origin
    return ⟨value, script⟩

def transferSkeleton (plan : TransferPlan) (vout : List PortTxOut) : UapJs.Tx where
  version := some 1
  locktime := some 0
  vin := ⟨plan.position.txid, plan.position.vout.getD 0, some [], some 0xffffffff⟩ ::
    plan.fundingInputs.map fun u => ⟨u.txid, u.vout, some [], some 0xffffffff⟩
  vout := vout

structure TransferTx where
  rawHex : Text
  tx : UapJs.Tx
  outputs : List TransferOutput

def buildTransferTx (crypto : Crypto) (secp : UapJs.Secp) (plan : TransferPlan) (privKey : Bytes) :
    Except String TransferTx := do
  failIf (plan.outputs = []) "buildTransferTx requires a plan from planTransfer"
  let positionScript ← positionScriptOf plan.position plan.ownPubKey plan.multiplier
  let outputOrigin ← UapJs.originForSpend crypto (some positionScript) plan.position.txid (plan.position.vout.getD 0)
  let vout ← plan.outputs.mapM (·.encode crypto outputOrigin)
  let tx := transferSkeleton plan vout
  let scriptSig ← UapJs.signSpend crypto secp positionScript privKey tx 0 1
  let tx := { tx with vin := tx.vin.modify 0 fun vin => { vin with scriptSig := some scriptSig } }
  let inputs ← plan.fundingInputs.mapM (·.paymentInput crypto privKey plan.ownPubKey)
  let tx ← UapJs.signInputs crypto secp inputs 1 tx
  let raw ← UapJs.serializeTx tx
  return ⟨hexEncode raw, tx, plan.outputs⟩

end Whippet.Web
